import Xrt.Kernel.Argument

/-!
# Fast adapter descriptors

User space lays out the entries of the descriptor, first those of the inputs and then those of the
outputs. The driver computes the size of a slot from the same arguments, in their own order.
-/
namespace Xrt.Kernel

open Lib

def nextDescriptorAddr : Text := ascii "nextDescriptorAddr"

/-! ### User space -/

/-- What a loop over the arguments leaves. -/
structure FaPass where
  args : List Argument
  descOffset : Nat
  num : Nat
  entryBytes : Nat

/-- A loop of `amend_fa_args`: the arguments of one direction get the offsets of their entries. -/
def amendPass (dir : Direction) : List Argument → Nat → FaPass
  | [], descOffset => ⟨[], descOffset, 0, 0⟩
  | arg :: args, descOffset =>
    if arg.dir = dir then
      let pass := amendPass dir args (descOffset + (arg.size + sizeofFaDescEntry))
      { pass with
        args := arg.setFaDescOffset descOffset :: pass.args
        num := pass.num + 1
        entryBytes := pass.entryBytes + arg.size }
    else
      let pass := amendPass dir args descOffset
      { pass with args := arg :: pass.args }

structure FaKernel where
  args : List Argument
  faNumInputs : Nat
  faInputEntryBytes : Nat
  faNumOutputs : Nat
  faOutputEntryBytes : Nat
  /-- In words. -/
  regmapSize : Nat

def amendFaArgs (args : List Argument) : FaKernel :=
  -- the last argument is "nextDescriptorAddr", which the user does not set
  let inputs := amendPass .input args.dropLast 0
  let outputs := amendPass .output inputs.args inputs.descOffset
  { args := outputs.args
    faNumInputs := inputs.num
    faInputEntryBytes := inputs.entryBytes
    faNumOutputs := outputs.num
    faOutputEntryBytes := outputs.entryBytes
    regmapSize := (sizeofFaDescriptor + outputs.descOffset) / 4 }

/-- Settings of arguments, each with the index of its argument, one after the other. -/
def FaKernel.setArgs (kernel : FaKernel) (data : List Byte) (settings : List (Nat × List Byte)) :
    List Byte :=
  settings.foldl (fun data setting =>
    match kernel.args[setting.1]? with
    | none => data
    | some arg => FaArgSetter.setArgValue data arg setting.2) data

def lastSet (settings : List (Nat × List Byte)) (index : Nat) : Option (List Byte) :=
  (settings.reverse.find? (·.1 = index)).map (·.2)

/-! ### The driver -/

def roundUpToNextPower2 (size : BitVec 32) : BitVec 32 :=
  let v := size - 1
  let v := v ||| v >>> 1
  let v := v ||| v >>> 2
  let v := v ||| v >>> 4
  let v := v ||| v >>> 8
  let v := v ||| v >>> 16
  v + 1

/-- The loop of `cu_fa_get_desc_size`. -/
def descSizeLoop : List Argument → BitVec 32 → BitVec 32
  | [], size => size
  | arg :: args, size =>
    if arg.name = nextDescriptorAddr ∨ arg.size = 0 then descSizeLoop args size
    else descSizeLoop args (size + BitVec.ofNat 32 (sizeofFaDescEntry + arg.size))

def cuFaGetDescSize (args : List Argument) : BitVec 32 :=
  roundUpToNextPower2 (descSizeLoop args (BitVec.ofNat 32 sizeofFaDescriptor))

/-! ### Rounding up -/

section Rounding

variable {v : BitVec 32}

theorem toNat_le_smear (v : BitVec 32) (n : Nat) : v.toNat ≤ (v ||| v >>> n).toNat := by
  exact Nat.left_le_or

theorem smear_lt {k : Nat} (small : v.toNat < 2 ^ k) (n : Nat) : (v ||| v >>> n).toNat < 2 ^ k := by
  have shifted : (v >>> n).toNat ≤ v.toNat := by
    exact Nat.shiftRight_le _ _
  exact Nat.or_lt_two_pow small (shifted.trans_lt small)

/-- Each step doubles the number of ones below the highest one. -/
theorem smear_ones {n k : Nat} (ones : ∀ i < k, k ≤ i + n → v.getLsbD i = true) :
    ∀ i < k, k ≤ i + 2 * n → (v ||| v >>> n).getLsbD i = true := by
  intro i below near
  rw [BitVec.getLsbD_or, BitVec.getLsbD_ushiftRight]
  rcases Nat.lt_or_ge (i + n) k with far | first
  · -- the second half comes from the shifted ones
    rw [ones (n + i) (by omega) (by omega), Bool.or_true]
  · rw [ones i below first, Bool.true_or]

/-- The steps without the subtraction before and the addition behind them. -/
def smeared (v : BitVec 32) : BitVec 32 :=
  let v := v ||| v >>> 1
  let v := v ||| v >>> 2
  let v := v ||| v >>> 4
  let v := v ||| v >>> 8
  v ||| v >>> 16

theorem toNat_le_smeared (v : BitVec 32) : v.toNat ≤ (smeared v).toNat := by
  refine (toNat_le_smear v 1).trans ((toNat_le_smear _ 2).trans ((toNat_le_smear _ 4).trans ?_))
  exact (toNat_le_smear _ 8).trans (toNat_le_smear _ 16)

theorem smeared_lt {k : Nat} (small : v.toNat < 2 ^ k) : (smeared v).toNat < 2 ^ k :=
  smear_lt (smear_lt (smear_lt (smear_lt (smear_lt small 1) 2) 4) 8) 16

theorem toNat_smeared {k : Nat} (low : 2 ^ k ≤ v.toNat) (high : v.toNat < 2 ^ (k + 1)) :
    (smeared v).toNat = 2 ^ (k + 1) - 1 := by
  have top : v.getLsbD k = true := Nat.testBit_of_two_pow_le_and_two_pow_add_one_gt low high
  have small : k < 32 := BitVec.lt_of_getLsbD top
  have ones1 : ∀ i < k + 1, k + 1 ≤ i + 1 → v.getLsbD i = true := fun i below above => by
    rwa [show i = k by omega]
  have ones32 := smear_ones (smear_ones (smear_ones (smear_ones (smear_ones ones1))))
  apply Nat.eq_of_testBit_eq
  intro i
  rw [Nat.testBit_two_pow_sub_one]
  rcases Nat.lt_or_ge i (k + 1) with below | above
  · rw [decide_eq_true below]
    exact ones32 i below (by omega)
  · rw [decide_eq_false (Nat.not_lt.mpr above)]
    exact Nat.testBit_lt_two_pow ((smeared_lt high).trans_le (Nat.pow_le_pow_right (by omega) above))

variable {size : BitVec 32}

theorem le_roundUpToNextPower2 (positive : 0 < size.toNat) (small : size.toNat ≤ 2 ^ 31) :
    size.toNat ≤ (roundUpToNextPower2 size).toNat := by
  have before : (size - 1).toNat = size.toNat - 1 := by bv_omega
  have least := toNat_le_smeared (size - 1)
  have bound := smeared_lt (v := size - 1) (k := 31) (by omega)
  change _ ≤ (smeared (size - 1) + 1).toNat
  change _ ≤ (_ + 1) % 2 ^ 32
  omega

/-- A result above 2³¹ does not fit in 32 bits: it is zero. -/
theorem roundUpToNextPower2_high (high : 2 ^ 31 < size.toNat) : roundUpToNextPower2 size = 0 := by
  have before : (size - 1).toNat = size.toNat - 1 := by bv_omega
  -- all ones and one more wrap to zero
  apply BitVec.eq_of_toNat_eq
  change (smeared (size - 1) + 1).toNat = 0
  rw [BitVec.toNat_add, toNat_smeared (by omega : 2 ^ 31 ≤ _) (BitVec.isLt _)]
  decide

theorem roundUpToNextPower2_le (size : BitVec 32) : (roundUpToNextPower2 size).toNat ≤ 2 ^ 31 := by
  change (smeared (size - 1) + 1).toNat ≤ 2 ^ 31
  rcases Nat.lt_or_ge (size - 1).toNat (2 ^ 31) with low | high
  · have bound := smeared_lt low
    change (_ + 1) % 2 ^ 32 ≤ 2 ^ 31
    omega
  · rw [BitVec.toNat_add, toNat_smeared high (BitVec.isLt _)]
    decide

/-- The next power of two, unless it has 33 bits. -/
theorem roundUpToNextPower2_pow (positive : 0 < size.toNat) (small : size.toNat ≤ 2 ^ 31) :
    ∃ k, (roundUpToNextPower2 size).toNat = 2 ^ k := by
  change ∃ k, (smeared (size - 1) + 1).toNat = 2 ^ k
  have before : (size - 1).toNat = size.toNat - 1 := by bv_omega
  rcases Nat.eq_zero_or_pos (size - 1).toNat with one | more
  · have zero : size - 1 = 0 := BitVec.eq_of_toNat_eq one
    rw [zero]
    exact ⟨0, rfl⟩
  · have low := Nat.log2_self_le more.ne'
    have high := Nat.lt_log2_self (n := (size - 1).toNat)
    have bound := smeared_lt (v := size - 1) (k := 31) (by omega)
    have ones := toNat_smeared low high
    have pos := Nat.two_pow_pos ((size - 1).toNat.log2 + 1)
    refine ⟨(size - 1).toNat.log2 + 1, ?_⟩
    rw [BitVec.toNat_add]
    change ((smeared (size - 1)).toNat + 1) % 2 ^ 32 = _
    omega

end Rounding

/-! ### The layout of the entries -/

def entriesBytes (args : List Argument) : Nat := (args.map fun arg => arg.entry.size).sum

theorem entriesBytes_perm {args args' : List Argument} (perm : args.Perm args') :
    entriesBytes args = entriesBytes args' := (perm.map _).sum_nat

@[simp]
theorem entriesBytes_cons (arg : Argument) (args : List Argument) :
    entriesBytes (arg :: args) = arg.entry.size + entriesBytes args := by
  simp [entriesBytes]

theorem entriesBytes_append (first second : List Argument) :
    entriesBytes (first ++ second) = entriesBytes first + entriesBytes second := by
  simp [entriesBytes]

theorem entriesBytes_aligned {args : List Argument} (aligned : ∀ arg ∈ args, 4 ∣ arg.size) :
    4 ∣ entriesBytes args := by
  apply List.dvd_sum
  intro size member
  obtain ⟨arg, listed, rfl⟩ := List.mem_map.mp member
  exact Nat.dvd_add (aligned arg listed) ⟨2, rfl⟩

def ofDir (dir : Direction) (args : List Argument) : List Argument := args.filter (·.dir = dir)

section Pass

variable {dir other : Direction} {arg : Argument} {args : List Argument} {descOffset : Nat}

theorem ofDir_cons_self (same : arg.dir = dir) : ofDir dir (arg :: args) = arg :: ofDir dir args :=
  List.filter_cons_of_pos (decide_eq_true same)

theorem ofDir_cons_other (differs : arg.dir ≠ dir) : ofDir dir (arg :: args) = ofDir dir args :=
  List.filter_cons_of_neg (by simpa using differs)

theorem ofDir_perm (args : List Argument) : (ofDir .input args ++ ofDir .output args).Perm args := by
  have outputs : ofDir .output args = args.filter fun arg => !decide (arg.dir = .input) := by
    apply List.filter_congr
    intro arg _
    cases arg.dir <;> rfl
  rw [outputs]
  exact List.filter_append_perm _ _

theorem amendPass_args_self (same : arg.dir = dir) :
    (amendPass dir (arg :: args) descOffset).args
      = arg.setFaDescOffset descOffset
        :: (amendPass dir args (descOffset + arg.entry.size)).args := by
  rw [amendPass, if_pos same]
  rfl

theorem amendPass_args_other (differs : arg.dir ≠ dir) :
    (amendPass dir (arg :: args) descOffset).args
      = arg :: (amendPass dir args descOffset).args := by
  rw [amendPass, if_neg differs]

theorem amendPass_descOffset (args : List Argument) (descOffset : Nat) :
    (amendPass dir args descOffset).descOffset = descOffset + entriesBytes (ofDir dir args) := by
  induction args generalizing descOffset with
  | nil => rfl
  | cons arg args ih =>
    by_cases same : arg.dir = dir
    · rw [amendPass, if_pos same, ofDir_cons_self same, entriesBytes_cons]
      exact (ih _).trans (Nat.add_assoc _ _ _)
    · rw [amendPass, if_neg same, ofDir_cons_other same]
      exact ih _

theorem amendPass_ofDir_other (args : List Argument) (descOffset : Nat) (differs : dir ≠ other) :
    ofDir other (amendPass dir args descOffset).args = ofDir other args := by
  induction args generalizing descOffset with
  | nil => rfl
  | cons arg args ih =>
    by_cases same : arg.dir = dir
    · have notOther : arg.dir ≠ other := fun equal => differs (same.symm.trans equal)
      rw [amendPass_args_self same, ofDir_cons_other (by exact notOther),
        ofDir_cons_other notOther, ih]
    · rw [amendPass_args_other same]
      by_cases equal : arg.dir = other
      · rw [ofDir_cons_self equal, ofDir_cons_self equal, ih]
      · rw [ofDir_cons_other equal, ofDir_cons_other equal, ih]

theorem amendPass_map {α : Type} (f : Argument → α)
    (blind : ∀ (arg : Argument) offset, f (arg.setFaDescOffset offset) = f arg) (args : List Argument)
    (descOffset : Nat) : (amendPass dir args descOffset).args.map f = args.map f := by
  induction args generalizing descOffset with
  | nil => rfl
  | cons arg args ih =>
    by_cases same : arg.dir = dir
    · rw [amendPass_args_self same, List.map_cons, List.map_cons, ih, blind]
    · rw [amendPass_args_other same, List.map_cons, List.map_cons, ih]

theorem amendPass_tiles (dir : Direction) (args : List Argument) (descOffset : Nat) :
    Tiles ((ofDir dir (amendPass dir args descOffset).args).map (·.entry))
      ⟨descOffset, entriesBytes (ofDir dir args)⟩ := by
  induction args generalizing descOffset with
  | nil => exact tiles_nil descOffset
  | cons arg args ih =>
    by_cases same : arg.dir = dir
    · rw [amendPass_args_self same, ofDir_cons_self (by exact same), ofDir_cons_self same,
        List.map_cons, entriesBytes_cons]
      -- the first entry ends where the others begin
      exact (tiles_singleton _).append (ih _)
    · rw [amendPass_args_other same, ofDir_cons_other same, ofDir_cons_other same]
      exact ih descOffset

theorem amendPass_aligned (sizes : ∀ arg ∈ args, 4 ∣ arg.size) (aligned : 4 ∣ descOffset) :
    ∀ arg ∈ ofDir dir (amendPass dir args descOffset).args, 4 ∣ arg.faDescOffset := by
  induction args generalizing descOffset with
  | nil => simp [amendPass, ofDir]
  | cons arg args ih =>
    obtain ⟨head, rest⟩ := List.forall_mem_cons.mp sizes
    by_cases same : arg.dir = dir
    · rw [amendPass_args_self same, ofDir_cons_self (by exact same)]
      refine List.forall_mem_cons.mpr ⟨aligned, ih rest ?_⟩
      -- the head of an entry has 8 bytes
      exact Nat.dvd_add aligned (Nat.dvd_add head ⟨2, rfl⟩)
    · rw [amendPass_args_other same, ofDir_cons_other same]
      exact ih rest aligned

end Pass

section Layout

variable {others : List Argument} {next : Argument}

theorem amendFaArgs_map {α : Type} (f : Argument → α)
    (blind : ∀ (arg : Argument) offset, f (arg.setFaDescOffset offset) = f arg) :
    (amendFaArgs (others ++ [next])).args.map f = others.map f := by
  rw [amendFaArgs, List.dropLast_concat, amendPass_map f blind, amendPass_map f blind]

theorem amendFaArgs_regmapSize :
    (amendFaArgs (others ++ [next])).regmapSize
      = (sizeofFaDescriptor + entriesBytes others) / 4 := by
  rw [amendFaArgs, List.dropLast_concat]
  rw [amendPass_descOffset, amendPass_descOffset, amendPass_ofDir_other _ _ (by decide),
    Nat.zero_add, ← entriesBytes_append, entriesBytes_perm (ofDir_perm others)]

/-- The entries are a partition of the data behind the head of the descriptor. -/
theorem amendFaArgs_tiles :
    Tiles ((amendFaArgs (others ++ [next])).args.map (·.entry)) ⟨0, entriesBytes others⟩ := by
  rw [amendFaArgs, List.dropLast_concat]
  have inputs := amendPass_tiles .input others 0
  have outputs := amendPass_tiles .output (amendPass .input others 0).args
    (amendPass .input others 0).descOffset
  have kept : ofDir .input (amendPass .output (amendPass .input others 0).args
      (amendPass .input others 0).descOffset).args = ofDir .input (amendPass .input others 0).args :=
    amendPass_ofDir_other _ _ (by decide)
  rw [← kept] at inputs
  -- the outputs begin where the inputs end
  have start : (amendPass .input others 0).descOffset = 0 + entriesBytes (ofDir .input others) :=
    amendPass_descOffset others 0
  have later : ofDir .output (amendPass .input others 0).args = ofDir .output others :=
    amendPass_ofDir_other _ _ (by decide)
  rw [later] at outputs
  nth_rewrite 2 [start] at outputs
  have both := inputs.append outputs
  rw [← entriesBytes_append, entriesBytes_perm (ofDir_perm others), ← List.map_append] at both
  exact both.congr fun a => cover_perm ((ofDir_perm _).symm.map _) a

theorem amendFaArgs_aligned (aligned : ∀ arg ∈ others, 4 ∣ arg.size) :
    ∀ arg ∈ (amendFaArgs (others ++ [next])).args, 4 ∣ arg.faDescOffset := by
  rw [amendFaArgs, List.dropLast_concat]
  intro arg member
  rcases List.mem_append.mp ((ofDir_perm _).mem_iff.mpr member) with input | output
  · rw [amendPass_ofDir_other _ _ (by decide)] at input
    exact amendPass_aligned aligned (Nat.dvd_zero 4) arg input
  · -- the offset the outputs begin at and their sizes are multiples of 4, too
    have sizes : ∀ a ∈ (amendPass .input others 0).args, 4 ∣ a.size := by
      have same : (amendPass .input others 0).args.map (·.size) = others.map (·.size) :=
        amendPass_map _ (fun _ _ => rfl) others 0
      intro a inside
      have size : a.size ∈ others.map (·.size) := same ▸ List.mem_map_of_mem inside
      obtain ⟨b, listed, equal⟩ := List.mem_map.mp size
      exact equal ▸ aligned b listed
    refine amendPass_aligned sizes ?_ arg output
    rw [amendPass_descOffset, Nat.zero_add]
    exact entriesBytes_aligned fun a listed => aligned a (List.mem_of_mem_filter listed)

end Layout

/-! ### Setting and reading arguments -/

/-- Entries that do not meet, inside a payload of a number of bytes. -/
structure LaidOut (args : List Argument) (bytes : Nat) : Prop where
  aligned : ∀ arg ∈ args, 4 ∣ arg.faDescOffset
  disjoint : (args.map (·.entry)).Pairwise Range.Disjoint
  inside : ∀ arg ∈ args, sizeofFaDescriptor + (arg.entry.start + arg.entry.size) ≤ bytes

section Settings

variable {args : List Argument} {arg other : Argument} {data value : List Byte} {i j : Nat}

theorem LaidOut.descEntry_eq (laid : LaidOut args data.length) (member : arg ∈ args) :
    FaArgSetter.descEntry arg = sizeofFaDescriptor + arg.faDescOffset := by
  rw [FaArgSetter.descEntry, Nat.mul_div_cancel' (laid.aligned arg member)]

theorem LaidOut.entry_inside (laid : LaidOut args data.length) (member : arg ∈ args) :
    FaArgSetter.descEntry arg + 8 + arg.size ≤ data.length := by
  have inside : sizeofFaDescriptor + (arg.faDescOffset + (arg.size + 8)) ≤ data.length :=
    laid.inside arg member
  rw [laid.descEntry_eq member]
  omega

theorem LaidOut.getArgValue_other (laid : LaidOut args data.length) (at_i : args[i]? = some arg)
    (at_j : args[j]? = some other) (differs : i ≠ j) :
    FaArgSetter.getArgValue (FaArgSetter.setArgValue data arg value) other
      = FaArgSetter.getArgValue data other := by
  have first := List.mem_of_getElem? at_i
  have second := List.mem_of_getElem? at_j
  have apart : arg.entry.Disjoint other.entry := by
    have each := List.pairwise_iff_getElem.mp (List.pairwise_map.mp laid.disjoint)
    obtain ⟨ilt, rfl⟩ := List.getElem?_eq_some_iff.mp at_i
    obtain ⟨jlt, rfl⟩ := List.getElem?_eq_some_iff.mp at_j
    rcases Nat.lt_or_gt_of_ne differs with before | after
    · exact each i j ilt jlt before
    · intro a both
      exact each j i jlt ilt after a both.symm
  -- ranges that do not meet are in one order or the other
  have order := apart.before_or_after (Nat.succ_pos _) (Nat.succ_pos _)
  have start := laid.descEntry_eq first
  have otherStart := laid.descEntry_eq second
  apply FaArgSetter.slice_setArgValue_outside (laid.entry_inside first)
  simp only [Argument.entry, sizeofFaDescEntry] at order
  omega

variable {kernel : FaKernel} {settings : List (Nat × List Byte)}

theorem FaKernel.setArgs_append (data : List Byte) (settings : List (Nat × List Byte))
    (setting : Nat × List Byte) :
    kernel.setArgs data (settings ++ [setting])
      = match kernel.args[setting.1]? with
        | none => kernel.setArgs data settings
        | some arg => FaArgSetter.setArgValue (kernel.setArgs data settings) arg setting.2 := by
  rw [FaKernel.setArgs, List.foldl_append]
  rfl

theorem lastSet_append (settings : List (Nat × List Byte)) (setting : Nat × List Byte)
    (index : Nat) : lastSet (settings ++ [setting]) index
      = if setting.1 = index then some setting.2 else lastSet settings index := by
  rw [lastSet, List.reverse_append, List.reverse_singleton, List.singleton_append, List.find?_cons]
  by_cases equal : setting.1 = index
  · simp [equal]
  · simp [equal, lastSet]

theorem LaidOut.length_setArgs (laid : LaidOut kernel.args data.length) :
    (kernel.setArgs data settings).length = data.length := by
  induction settings using List.reverseRecOn with
  | nil => rfl
  | append_singleton settings setting ih =>
    rw [kernel.setArgs_append]
    split
    · exact ih
    next arg found =>
      rw [← ih] at laid
      rw [FaArgSetter.length_setArgValue (laid.entry_inside (List.mem_of_getElem? found)), ih]

theorem LaidOut.getArgValue_setArgs_none (laid : LaidOut kernel.args data.length)
    (found : kernel.args[i]? = some arg) (unset : lastSet settings i = none) :
    FaArgSetter.getArgValue (kernel.setArgs data settings) arg
      = FaArgSetter.getArgValue data arg := by
  induction settings using List.reverseRecOn with
  | nil => rfl
  | append_singleton settings setting ih =>
    rw [lastSet_append] at unset
    split at unset
    · cases unset
    next differs =>
      rw [kernel.setArgs_append, ← ih unset]
      split
      · rfl
      next found' =>
        have length : (kernel.setArgs data settings).length = data.length := laid.length_setArgs
        rw [← length] at laid
        exact laid.getArgValue_other found' found differs

theorem LaidOut.getArgValue_setArgs_some (laid : LaidOut kernel.args data.length)
    (found : kernel.args[i]? = some arg) (last : lastSet settings i = some value) :
    (FaArgSetter.getArgValue (kernel.setArgs data settings) arg).take value.length
      = value.take arg.size := by
  induction settings using List.reverseRecOn with
  | nil => cases last
  | append_singleton settings setting ih =>
    have laid' := laid
    have length : (kernel.setArgs data settings).length = data.length := laid.length_setArgs
    rw [← length] at laid'
    rw [lastSet_append] at last
    rw [kernel.setArgs_append]
    split at last
    next equal =>
      cases last
      rw [equal, found]
      exact FaArgSetter.take_getArgValue_setArgValue
        (laid'.entry_inside (List.mem_of_getElem? found))
    next differs =>
      -- a later setting of another argument
      split
      · exact ih last
      next found' =>
        rw [laid'.getArgValue_other found' found differs]
        exact ih last

end Settings

/-! ### The driver's size -/

theorem descSizeLoop_eq {args : List Argument} (size : BitVec 32)
    (unnamed : ∀ arg ∈ args, arg.name ≠ nextDescriptorAddr) (sized : ∀ arg ∈ args, arg.size ≠ 0) :
    descSizeLoop args size = size + BitVec.ofNat 32 (entriesBytes args) := by
  induction args generalizing size with
  | nil => simp [descSizeLoop, entriesBytes]
  | cons arg args ih =>
    have kept : ¬ (arg.name = nextDescriptorAddr ∨ arg.size = 0) :=
      not_or.mpr ⟨unnamed arg List.mem_cons_self, sized arg List.mem_cons_self⟩
    rw [descSizeLoop, if_neg kept, ih _ (fun a member => unnamed a (List.mem_cons_of_mem arg member))
      (fun a member => sized a (List.mem_cons_of_mem arg member)), BitVec.add_assoc,
      ← BitVec.ofNat_add]
    rw [entriesBytes, entriesBytes, List.map_cons, List.sum_cons, Nat.add_comm sizeofFaDescEntry]
    rfl

theorem descSizeLoop_append (first second : List Argument) (size : BitVec 32) :
    descSizeLoop (first ++ second) size = descSizeLoop second (descSizeLoop first size) := by
  induction first generalizing size with
  | nil => rfl
  | cons arg args ih =>
    rw [List.cons_append, descSizeLoop, descSizeLoop]
    split
    · exact ih size
    · exact ih _

/-- The slot is large enough as long as the next power of two fits in 32 bits. -/
theorem le_cuFaGetDescSize_iff {others : List Argument} {next : Argument}
    (named : next.name = nextDescriptorAddr)
    (unnamed : ∀ arg ∈ others, arg.name ≠ nextDescriptorAddr)
    (sized : ∀ arg ∈ others, arg.size ≠ 0) :
    sizeofFaDescriptor + entriesBytes others ≤ (cuFaGetDescSize (others ++ [next])).toNat
      ↔ sizeofFaDescriptor + entriesBytes others ≤ 2 ^ 31 := by
  -- the loop skips the last argument by its name
  have size : cuFaGetDescSize (others ++ [next])
      = roundUpToNextPower2 (BitVec.ofNat 32 (sizeofFaDescriptor + entriesBytes others)) := by
    rw [cuFaGetDescSize, descSizeLoop_append, descSizeLoop_eq _ unnamed sized, ← BitVec.ofNat_add,
      descSizeLoop, if_pos (Or.inl named), descSizeLoop]
  have least : 20 ≤ sizeofFaDescriptor + entriesBytes others := Nat.le_add_right _ _
  constructor
  · intro fits
    exact fits.trans (roundUpToNextPower2_le _)
  · intro small
    have value : (BitVec.ofNat 32 (sizeofFaDescriptor + entriesBytes others)).toNat
        = sizeofFaDescriptor + entriesBytes others := by
      rw [BitVec.toNat_ofNat, Nat.mod_eq_of_lt (by omega)]
    have fits := @le_roundUpToNextPower2 (BitVec.ofNat 32 (sizeofFaDescriptor + entriesBytes others))
      (by omega) (by omega)
    rwa [value, ← size] at fits

/-! ### Agreement -/

theorem amendFaArgs_bytes {others : List Argument} {next : Argument}
    (aligned : ∀ arg ∈ others, 4 ∣ arg.size) :
    4 * (amendFaArgs (others ++ [next])).regmapSize
      = sizeofFaDescriptor + entriesBytes others := by
  have head : 4 ∣ sizeofFaDescriptor := ⟨5, rfl⟩
  rw [amendFaArgs_regmapSize, Nat.mul_div_cancel' (Nat.dvd_add head (entriesBytes_aligned aligned))]

theorem amendFaArgs_laidOut {others : List Argument} {next : Argument}
    (aligned : ∀ arg ∈ others, 4 ∣ arg.size) :
    LaidOut (amendFaArgs (others ++ [next])).args
      (4 * (amendFaArgs (others ++ [next])).regmapSize) := by
  have tiles : Tiles ((amendFaArgs (others ++ [next])).args.map (·.entry))
      ⟨0, entriesBytes others⟩ := amendFaArgs_tiles
  constructor
  · exact amendFaArgs_aligned aligned
  · exact (tiles_iff.mp tiles).1
  · intro arg member
    have inside := (tiles.inside (List.mem_map_of_mem member) (Nat.succ_pos _)).2
    rw [amendFaArgs_bytes aligned]
    rw [Nat.zero_add] at inside
    exact Nat.add_le_add_left inside _

/-- The entries do not meet and lie inside the payload, so an argument reads as it was last set. The
slot of the driver has room for the descriptor as long as the next power of two is below 2³². -/
theorem fa_descriptor_agrees {others : List Argument} {next : Argument}
    (named : next.name = nextDescriptorAddr)
    (unnamed : ∀ arg ∈ others, arg.name ≠ nextDescriptorAddr)
    (sized : ∀ arg ∈ others, arg.size ≠ 0) (aligned : ∀ arg ∈ others, 4 ∣ arg.size)
    (_total : (others.map (·.size)).sum < 2 ^ 31) :
    let kernel := amendFaArgs (others ++ [next])
    kernel.args.map (fun arg => (arg.name, arg.offset, arg.size, arg.dir))
        = others.map (fun arg => (arg.name, arg.offset, arg.size, arg.dir))
      ∧ (kernel.args.map (·.entry)).Pairwise Range.Disjoint
      ∧ (∀ arg ∈ kernel.args,
          sizeofFaDescriptor + (arg.entry.start + arg.entry.size) ≤ 4 * kernel.regmapSize)
      ∧ (∀ data settings, data.length = 4 * kernel.regmapSize →
          ∀ i arg, kernel.args[i]? = some arg →
            (∀ value, lastSet settings i = some value →
              (FaArgSetter.getArgValue (kernel.setArgs data settings) arg).take value.length
                = value.take arg.size)
            ∧ (lastSet settings i = none →
              FaArgSetter.getArgValue (kernel.setArgs data settings) arg
                = FaArgSetter.getArgValue data arg))
      ∧ (4 * kernel.regmapSize ≤ (cuFaGetDescSize (others ++ [next])).toNat
        ↔ sizeofFaDescriptor + (others.map fun arg => arg.size + sizeofFaDescEntry).sum
          ≤ 2 ^ 31) := by
  intro kernel
  have laid : LaidOut kernel.args (4 * kernel.regmapSize) := amendFaArgs_laidOut aligned
  refine ⟨amendFaArgs_map _ fun _ _ => rfl, laid.disjoint, laid.inside, ?_, ?_⟩
  · intro data settings length i arg found
    rw [← length] at laid
    exact ⟨fun value last => laid.getArgValue_setArgs_some found last,
      laid.getArgValue_setArgs_none found⟩
  · have bytes : 4 * kernel.regmapSize = _ := amendFaArgs_bytes aligned
    rw [bytes]
    exact le_cuFaGetDescSize_iff named unnamed sized

/-- An output of 8 bytes before an input of 4 bytes. -/
theorem small_fa_descriptor_agrees :
    4 * (amendFaArgs [⟨ascii "out", 16, 8, 0, .output⟩, ⟨ascii "in", 24, 4, 0, .input⟩,
        ⟨nextDescriptorAddr, 32, 8, 0, .input⟩]).regmapSize
      ≤ (cuFaGetDescSize [⟨ascii "out", 16, 8, 0, .output⟩, ⟨ascii "in", 24, 4, 0, .input⟩,
        ⟨nextDescriptorAddr, 32, 8, 0, .input⟩]).toNat :=
  (@fa_descriptor_agrees [⟨ascii "out", 16, 8, 0, .output⟩, ⟨ascii "in", 24, 4, 0, .input⟩]
    ⟨nextDescriptorAddr, 32, 8, 0, .input⟩ rfl (by decide) (by decide) (by decide)
    (by decide)).2.2.2.2.mpr (by decide)

/-- One input of 2³¹ - 4 bytes: its descriptor is larger than 2³¹ bytes, and the rounded size
is zero. -/
theorem large_descriptor_no_slot :
    let input : Argument := ⟨ascii "in", 16, 2 ^ 31 - 4, 0, .input⟩
    let next : Argument := ⟨nextDescriptorAddr, 24, 8, 0, .input⟩
    next.name = nextDescriptorAddr
      ∧ input.name ≠ nextDescriptorAddr
      ∧ input.size ≠ 0
      ∧ 4 ∣ input.size
      ∧ input.size < 2 ^ 31
      ∧ 4 * (amendFaArgs [input, next]).regmapSize = 2 ^ 31 + 24
      ∧ cuFaGetDescSize [input, next] = 0 := by
  decide +kernel

end Xrt.Kernel
