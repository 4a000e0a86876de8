import Xrt.Lib.Lists
import Xrt.Lib.Text

/-!
# The CU table of the driver

The driver goes through the IP layout of an xclbin and inserts each CU in an array, which it keeps
in the order of the interrupt ids and, for one interrupt id, of the addresses.
-/
namespace Xrt.Cu

open Lib

inductive IpType
  | kernel
  | psKernel
  | other
deriving DecidableEq, Repr

structure IpData where
  type : IpType
  properties : BitVec 32
  baseAddress : BitVec 64
deriving DecidableEq, Repr

def IP_INTERRUPT_ID_MASK : BitVec 32 := 0x00FE

def IP_INTERRUPT_ID_SHIFT : Nat := 1

/-- `xrt_cu_info`, with the entry of the IP layout that it was made for. -/
structure CuInfo where
  entry : Nat
  addr : BitVec 64
  intrId : Nat
  cuIdx : Nat := 0
deriving DecidableEq, Repr

namespace IpData

def intrId (ip : IpData) : Nat :=
  ((ip.properties &&& IP_INTERRUPT_ID_MASK) >>> IP_INTERRUPT_ID_SHIFT).toNat

/-- A CU of the driver: an IP_KERNEL entry with a valid base address. -/
def isCu (ip : IpData) : Bool := ip.type = .kernel && ~~~ip.baseAddress != 0

end IpData

structure CuTable where
  cuInfo : Nat → CuInfo
  numCus : Nat

def putCu (cuInfo : Nat → CuInfo) (j : Nat) (info : CuInfo) : Nat → CuInfo :=
  Function.update cuInfo j { info with cuIdx := j }

/-- The loop of the insertion, at place `j`. -/
def insertLoop (info : CuInfo) (numCus : Nat) : Nat → (Nat → CuInfo) → CuTable
  | 0, cuInfo => ⟨putCu cuInfo 0 info, numCus + 1⟩
  | j + 1, cuInfo =>
    let prev := cuInfo j
    if prev.intrId < info.intrId then ⟨putCu cuInfo (j + 1) info, numCus + 1⟩
    else if prev.intrId > info.intrId then insertLoop info numCus j (putCu cuInfo (j + 1) prev)
    else if prev.addr < info.addr then ⟨putCu cuInfo (j + 1) info, numCus + 1⟩
    else if prev.addr > info.addr then insertLoop info numCus j (putCu cuInfo (j + 1) prev)
    -- the same address: the IP is ignored
    else ⟨cuInfo, numCus⟩

def insertCu (table : CuTable) (info : CuInfo) : CuTable :=
  insertLoop info table.numCus table.numCus table.cuInfo

def cuInfos (layout : List IpData) : List CuInfo :=
  (layout.zipIdx.filter fun ip => ip.1.isCu).map fun ip =>
    { entry := ip.2, addr := ip.1.baseAddress, intrId := ip.1.intrId }

/-- The array is not initialized. -/
def kdsIpLayout2cuInfo (layout : List IpData) (cuInfo : Nat → CuInfo) : CuTable :=
  (cuInfos layout).foldl insertCu ⟨cuInfo, 0⟩

/-! ### One insertion -/

/-- Interrupt id and address as one number. -/
def CuInfo.key (info : CuInfo) : Nat := 2 ^ 64 * info.intrId + info.addr.toNat

def CuInfo.strip (info : CuInfo) : CuInfo := { info with cuIdx := 0 }

/-- The first `j` places of an array are shifted up from place `c` on to make room for a CU. -/
structure InsertedAt (old new : Nat → CuInfo) (info : CuInfo) (c j : Nat) : Prop where
  le : c ≤ j
  below : ∀ i < c, new i = old i ∧ (old i).key < info.key
  here : new c = { info with cuIdx := c }
  above : ∀ i, c ≤ i → i < j → new (i + 1) = { old i with cuIdx := i + 1 } ∧ info.key < (old i).key
  beyond : ∀ i, j < i → new i = old i

variable {info : CuInfo} {cuInfo : Nat → CuInfo} {numCus j : Nat}

theorem CuInfo.key_lt_iff (a b : CuInfo) :
    a.key < b.key ↔ a.intrId < b.intrId ∨ a.intrId = b.intrId ∧ a.addr < b.addr := by
  rw [key, key, BitVec.lt_def]
  omega

theorem insertLoop_succ (info : CuInfo) (numCus j : Nat) (cuInfo : Nat → CuInfo) :
    insertLoop info numCus (j + 1) cuInfo
      = if (cuInfo j).key < info.key then ⟨putCu cuInfo (j + 1) info, numCus + 1⟩
        else if info.key < (cuInfo j).key then
          insertLoop info numCus j (putCu cuInfo (j + 1) (cuInfo j))
        else ⟨cuInfo, numCus⟩ := by
  rw [insertLoop]
  simp only [CuInfo.key_lt_iff, gt_iff_lt]
  -- the source compares the ids first, and the addresses of CUs with one id
  rcases Nat.lt_trichotomy (cuInfo j).intrId info.intrId with less | equal | greater
  · simp [less]
  · simp [equal]
  · simp [greater, Nat.lt_asymm greater, greater.ne']

theorem putCu_self (cuInfo : Nat → CuInfo) (j : Nat) (info : CuInfo) :
    putCu cuInfo j info j = { info with cuIdx := j } := Function.update_self ..

theorem putCu_of_ne (cuInfo : Nat → CuInfo) {i j : Nat} (info : CuInfo) (differs : i ≠ j) :
    putCu cuInfo j info i = cuInfo i := Function.update_of_ne differs ..

/-- The CUs from place `c` on have moved up by one place, up to place `j`. -/
def shiftedUp (cuInfo : Nat → CuInfo) (c j : Nat) : Nat → CuInfo := fun i =>
  if c < i ∧ i ≤ j then { cuInfo (i - 1) with cuIdx := i } else cuInfo i

theorem shiftedUp_of_le (cuInfo : Nat → CuInfo) {c i : Nat} (low : i ≤ c) (j : Nat) :
    shiftedUp cuInfo c j i = cuInfo i := if_neg (by omega)

theorem shiftedUp_of_gt (cuInfo : Nat → CuInfo) {i j : Nat} (high : j < i) (c : Nat) :
    shiftedUp cuInfo c j i = cuInfo i := if_neg (by omega)

theorem shiftedUp_succ (cuInfo : Nat → CuInfo) {c i j : Nat} (first : c ≤ i) (second : i < j) :
    shiftedUp cuInfo c j (i + 1) = { cuInfo i with cuIdx := i + 1 } := if_pos (by omega)

/-- The loop moves up every CU with a greater key until it finds another one. -/
theorem insertLoop_shift {c : Nat} (le : c ≤ j)
    (above : ∀ i, c ≤ i → i < j → info.key < (cuInfo i).key) (numCus : Nat) :
    insertLoop info numCus j cuInfo = insertLoop info numCus c (shiftedUp cuInfo c j) := by
  induction j generalizing cuInfo with
  | zero =>
    have same : shiftedUp cuInfo c 0 = cuInfo := funext fun i => if_neg (by omega)
    rw [same, Nat.le_zero.mp le]
  | succ j ih =>
    rcases Nat.lt_or_eq_of_le le with less | rfl
    · have greater := above j (by omega) (Nat.lt_succ_self j)
      rw [insertLoop_succ, if_neg (Nat.lt_asymm greater), if_pos greater,
        ih (by omega) fun i first second => ?_]
      · -- place `j + 1` has the last CU, the places below it are shifted by the rest of the loop
        congr 1
        funext i
        rcases Nat.lt_trichotomy i (j + 1) with low | rfl | high
        · simp only [shiftedUp, Nat.le_of_lt_succ low, low.le,
            putCu_of_ne cuInfo _ (show i - 1 ≠ j + 1 by omega), putCu_of_ne cuInfo _ low.ne]
        · rw [shiftedUp_of_gt _ (Nat.lt_succ_self j), putCu_self,
            shiftedUp_succ cuInfo (by omega) (Nat.lt_succ_self j)]
        · rw [shiftedUp_of_gt _ (by omega), shiftedUp_of_gt _ high, putCu_of_ne _ _ high.ne']
      · rw [putCu_of_ne _ _ (by omega)]
        exact above i first (by omega)
    · have same : shiftedUp cuInfo (j + 1) (j + 1) = cuInfo := funext fun i => if_neg (by omega)
      rw [same]

/-- The place where the loop ends. -/
theorem exists_stop (info : CuInfo) (cuInfo : Nat → CuInfo) (j : Nat) :
    ∃ c ≤ j, (∀ i, c ≤ i → i < j → info.key < (cuInfo i).key)
      ∧ (c = 0 ∨ (cuInfo (c - 1)).key ≤ info.key) := by
  induction j with
  | zero => exact ⟨0, le_rfl, fun i _ low => absurd low (Nat.not_lt_zero i), .inl rfl⟩
  | succ j ih =>
    by_cases greater : info.key < (cuInfo j).key
    · obtain ⟨c, le, above, stop⟩ := ih
      refine ⟨c, by omega, fun i first second => ?_, stop⟩
      rcases Nat.lt_succ_iff_lt_or_eq.mp second with lower | rfl
      · exact above i first lower
      · exact greater
    · exact ⟨j + 1, le_rfl, fun i first second => by omega, .inr (Nat.not_lt.mp greater)⟩

section Stop

variable {c : Nat} (le : c ≤ j) (above : ∀ i, c ≤ i → i < j → info.key < (cuInfo i).key)

include le above

theorem insertLoop_inserted (numCus : Nat) (less : c = 0 ∨ (cuInfo (c - 1)).key < info.key) :
    insertLoop info numCus j cuInfo = ⟨putCu (shiftedUp cuInfo c j) c info, numCus + 1⟩ := by
  rw [insertLoop_shift le above]
  cases c with
  | zero => rfl
  | succ c =>
    have below : (cuInfo c).key < info.key := less.resolve_left (Nat.succ_ne_zero c)
    rw [insertLoop_succ, shiftedUp_of_le _ (Nat.le_succ c), if_pos below]

/-- What has moved up by then stays there. -/
theorem insertLoop_ignored (numCus : Nat) (positive : 0 < c)
    (equal : (cuInfo (c - 1)).key = info.key) :
    insertLoop info numCus j cuInfo = ⟨shiftedUp cuInfo c j, numCus⟩ := by
  rw [insertLoop_shift le above]
  cases c with
  | zero => exact absurd positive (Nat.lt_irrefl 0)
  | succ c =>
    rw [Nat.add_sub_cancel] at equal
    rw [insertLoop_succ, shiftedUp_of_le _ (Nat.le_succ c), if_neg (Nat.not_lt.mpr equal.ge),
      if_neg (Nat.not_lt.mpr equal.le)]

end Stop

theorem insertLoop_spec (numCus : Nat) (sorted : ∀ i k, i < k → k < j → (cuInfo i).key < (cuInfo k).key)
    (fresh : ∀ i < j, (cuInfo i).key ≠ info.key) :
    (insertLoop info numCus j cuInfo).numCus = numCus + 1
      ∧ ∃ c, InsertedAt cuInfo (insertLoop info numCus j cuInfo).cuInfo info c j := by
  obtain ⟨c, le, above, stop⟩ := exists_stop info cuInfo j
  have less : c = 0 ∨ (cuInfo (c - 1)).key < info.key := by
    rcases Nat.eq_zero_or_pos c with zero | positive
    · exact .inl zero
    · have differs := fresh (c - 1) (by omega)
      omega
  rw [insertLoop_inserted le above numCus less]
  refine ⟨rfl, c, le, fun i low => ⟨?_, ?_⟩, putCu_self .., fun i first second => ⟨?_, ?_⟩,
    fun i high => ?_⟩
  · exact (putCu_of_ne _ _ low.ne).trans (shiftedUp_of_le cuInfo low.le j)
  · have last := less.resolve_left (by omega)
    rcases Nat.lt_or_eq_of_le (Nat.le_sub_one_of_lt low) with lower | rfl
    · exact (sorted i (c - 1) lower (by omega)).trans last
    · exact last
  · exact (putCu_of_ne _ _ (by omega)).trans (shiftedUp_succ cuInfo first second)
  · exact above i first second
  · exact (putCu_of_ne _ _ (by omega)).trans (shiftedUp_of_gt cuInfo high c)

/-! ### The whole table -/

/-- The table has these CUs, each at its place in the order of the keys. -/
structure CuTable.Holds (table : CuTable) (infos : List CuInfo) : Prop where
  idx : ∀ i < table.numCus, (table.cuInfo i).cuIdx = i
  sorted : ∀ i k, i < k → k < table.numCus → (table.cuInfo i).key < (table.cuInfo k).key
  perm : ((List.range table.numCus).map fun i => (table.cuInfo i).strip).Perm infos

theorem InsertedAt.places {old new : Nat → CuInfo} {c i : Nat}
    (place : InsertedAt old new info c j) (inside : i < j + 1) :
    (i < c ∧ new i = old i ∧ (old i).key < info.key)
      ∨ (i = c ∧ new i = { info with cuIdx := i })
      ∨ ∃ k, i = k + 1 ∧ c ≤ k ∧ k < j ∧ new i = { old k with cuIdx := i }
        ∧ info.key < (old k).key := by
  rcases Nat.lt_trichotomy i c with low | rfl | high
  · exact .inl ⟨low, place.below i low⟩
  · exact .inr (.inl ⟨rfl, place.here⟩)
  · obtain ⟨k, rfl⟩ : ∃ k, i = k + 1 := ⟨i - 1, by omega⟩
    exact .inr (.inr ⟨k, rfl, by omega, by omega, place.above k (by omega) (by omega)⟩)

theorem InsertedAt.map_range {old new : Nat → CuInfo} {c : Nat} (place : InsertedAt old new info c j)
    (stripped : info.strip = info) :
    ((List.range (j + 1)).map fun i => (new i).strip).Perm
      (info :: (List.range j).map fun i => (old i).strip) := by
  have le := place.le
  -- as a list, the new CU stands between the first `c` and the others
  have shifted : ((List.range (j + 1)).map fun i => (new i).strip)
      = ((List.range j).map fun i => (old i).strip).take c
        ++ info :: ((List.range j).map fun i => (old i).strip).drop c := by
    apply List.ext_getElem
    · simp only [List.length_map, List.length_range, List.length_append, List.length_take,
        List.length_cons, List.length_drop]
      omega
    · intro i first second
      have inside : i < j + 1 := by simpa using first
      simp only [List.getElem_map, List.getElem_range, List.getElem_append, List.length_take,
        List.length_map, List.length_range, Nat.min_eq_left le, List.getElem_take]
      rcases Nat.lt_trichotomy i c with low | rfl | high
      · simp only [low, dif_pos, (place.below i low).1]
      · rw [dif_neg (Nat.lt_irrefl i)]
        simp only [Nat.sub_self, List.getElem_cons_zero, place.here]
        exact stripped
      · obtain ⟨k, rfl⟩ : ∃ k, i = c + 1 + k := ⟨i - (c + 1), by omega⟩
        have above := (place.above (c + k) (by omega) (by omega)).1
        rw [show c + k + 1 = c + 1 + k by omega] at above
        rw [dif_neg (by omega), List.getElem_cons, dif_neg (by omega)]
        simp only [List.getElem_drop, List.getElem_map, List.getElem_range]
        rw [above, show c + (c + 1 + k - c - 1) = c + k by omega]
        rfl
  rw [shifted]
  refine List.perm_middle.trans (List.Perm.cons info ?_)
  rw [List.take_append_drop]

variable {table : CuTable} {infos : List CuInfo}

theorem CuTable.Holds.insertCu (holds : table.Holds infos) (stripped : info.strip = info)
    (fresh : ∀ other ∈ infos, other.key ≠ info.key) :
    (insertCu table info).Holds (info :: infos) := by
  have differs : ∀ i < table.numCus, (table.cuInfo i).key ≠ info.key := fun i low => by
    refine fresh (table.cuInfo i).strip (holds.perm.mem_iff.mp ?_)
    exact List.mem_map.mpr ⟨i, List.mem_range.mpr low, rfl⟩
  obtain ⟨count, c, place⟩ := insertLoop_spec table.numCus holds.sorted differs
  constructor
  · intro i low
    rw [Cu.insertCu, count] at low
    rcases place.places low with ⟨below, same, -⟩ | ⟨-, new⟩ | ⟨k, -, -, -, shifted, -⟩
    · have le := place.le
      rw [Cu.insertCu, same]
      exact holds.idx i (by omega)
    · rw [Cu.insertCu, new]
    · rw [Cu.insertCu, shifted]
  · intro i k first low
    rw [Cu.insertCu, count] at low
    have le := place.le
    rw [Cu.insertCu]
    -- the place of the smaller index holds a CU that was below, is new or was shifted
    rcases place.places (i := i) (by omega) with
        ⟨below, same, less⟩ | ⟨here, new⟩ | ⟨i', here, _, _, shifted, greater⟩
      <;> rcases place.places (i := k) low with
        ⟨below', same', less'⟩ | ⟨here', new'⟩ | ⟨k', here', _, _, shifted', greater'⟩
    · rw [same, same']
      exact holds.sorted i k first (by omega)
    · rw [same, new']
      exact less
    · rw [same, shifted']
      exact less.trans greater'
    · omega
    · omega
    · rw [new, shifted']
      exact greater'
    · omega
    · omega
    · rw [shifted, shifted']
      exact holds.sorted i' k' (by omega) (by omega)
  · rw [Cu.insertCu, count]
    exact (place.map_range stripped).trans (holds.perm.cons info)

theorem cuInfos_strip {layout : List IpData} {info : CuInfo} (member : info ∈ cuInfos layout) :
    info.strip = info := by
  obtain ⟨ip, -, rfl⟩ := List.mem_map.mp member
  rfl

section

variable (holds : table.Holds infos)
include holds

/-- What the first `n` places have in common is counted as `n`. -/
theorem CuTable.Holds.countP_eq {p : CuInfo → Bool} {n : Nat}
    (le : n ≤ table.numCus) (fewer : ∀ k < table.numCus, p (table.cuInfo k).strip = decide (k < n)) :
    infos.countP p = n := by
  rw [← holds.perm.countP_eq, List.countP_map]
  change (List.range table.numCus).countP (fun k => p (table.cuInfo k).strip) = n
  obtain ⟨more, total⟩ := Nat.exists_eq_add_of_le le
  rw [total, List.range_add, countP_eq_length_left, List.length_range]
  · intro k member
    have below := List.mem_range.mp member
    rw [fewer k (by omega), decide_eq_true below]
  · intro k member
    obtain ⟨m, within, rfl⟩ := List.mem_map.mp member
    have inside := List.mem_range.mp within
    rw [fewer (n + m) (by omega)]
    exact decide_eq_false (by omega)

theorem CuTable.Holds.key_lt_iff {i k : Nat} (low : i < table.numCus)
    (inside : k < table.numCus) : (table.cuInfo k).key < (table.cuInfo i).key ↔ k < i := by
  rcases Nat.lt_trichotomy k i with less | rfl | greater
  · exact iff_of_true (holds.sorted k i less low) less
  · exact iff_of_false (Nat.lt_irrefl _) (Nat.lt_irrefl _)
  · exact iff_of_false (Nat.lt_asymm (holds.sorted i k greater inside)) (Nat.lt_asymm greater)

theorem CuTable.Holds.countP_greater {i : Nat} (low : i < table.numCus) :
    infos.countP ((table.cuInfo i).key < ·.key) + (i + 1) = table.numCus := by
  have others : infos.countP (fun info => !decide ((table.cuInfo i).key < info.key)) = i + 1 := by
    refine holds.countP_eq low fun k inside => ?_
    rw [← decide_not]
    refine decide_eq_decide.mpr ((not_congr (holds.key_lt_iff inside low)).trans ?_)
    omega
  have total := holds.perm.length_eq
  rw [List.length_map, List.length_range] at total
  have split := List.length_eq_countP_add_countP (fun info => decide ((table.cuInfo i).key < info.key))
    (l := infos)
  simp only [decide_eq_true_eq, decide_not] at split
  omega

end

/-! ### CUs that come twice -/

/-- The CUs without those that have the key of an earlier one. -/
def distinctCus (infos : List CuInfo) : List CuInfo :=
  infos.reverse.pwFilter fun a b => a.key ≠ b.key

/-- Where a CU comes again, no more than one of the CUs before it has a greater key. -/
def RepeatsHigh (infos : List CuInfo) : Prop :=
  ∀ before info, before ++ [info] <+: infos → (∃ other ∈ before, other.key = info.key) →
    (distinctCus before).countP (info.key < ·.key) ≤ 1

/-- Two places next to each other have the same key. -/
def CuTable.Doubled (table : CuTable) : Prop :=
  ∃ i, i + 1 < table.numCus ∧ (table.cuInfo i).key = (table.cuInfo (i + 1)).key

theorem CuTable.Doubled.not_holds (doubled : table.Doubled) : ¬ table.Holds infos := by
  obtain ⟨i, inside, equal⟩ := doubled
  intro holds
  exact (holds.sorted i (i + 1) (Nat.lt_succ_self i) inside).ne equal

theorem exists_distinctCus_iff (infos : List CuInfo) (info : CuInfo) :
    (∃ other ∈ distinctCus infos, other.key = info.key) ↔ ∃ other ∈ infos, other.key = info.key := by
  have apart : ∀ {a b c : CuInfo}, a.key ≠ c.key → a.key ≠ b.key ∨ b.key ≠ c.key := by
    intro a b c differs
    by_contra both
    rw [not_or, not_not, not_not] at both
    exact differs (both.1.trans both.2)
  have listed := List.forall_mem_pwFilter (R := fun a b : CuInfo => a.key ≠ b.key) apart info
    infos.reverse
  rw [← not_iff_not]
  push Not
  simp only [ne_comm (b := info.key), distinctCus]
  exact listed.trans (by simp only [List.mem_reverse])

theorem distinctCus_concat (before : List CuInfo) (info : CuInfo) :
    distinctCus (before ++ [info])
      = if ∃ other ∈ before, other.key = info.key then distinctCus before
        else info :: distinctCus before := by
  simp only [← exists_distinctCus_iff before info]
  rw [distinctCus, List.reverse_concat]
  split_ifs with again
  · obtain ⟨other, member, equal⟩ := again
    exact List.pwFilter_cons_of_neg fun all => all other member equal.symm
  · refine List.pwFilter_cons_of_pos fun other member equal => ?_
    exact again ⟨other, member, equal.symm⟩

theorem repeatsHigh_concat (before : List CuInfo) (info : CuInfo) :
    RepeatsHigh (before ++ [info])
      ↔ RepeatsHigh before ∧ ((∃ other ∈ before, other.key = info.key) →
          (distinctCus before).countP (info.key < ·.key) ≤ 1) := by
  constructor
  · intro high
    refine ⟨fun front last inside => high front last ?_, high before info (List.prefix_refl _)⟩
    exact inside.trans (List.prefix_append before [info])
  · rintro ⟨high, here⟩ front last inside
    rcases List.prefix_concat_iff.mp inside with whole | earlier
    · obtain ⟨rfl, same⟩ := List.append_inj' whole rfl
      cases same
      exact here
    · exact high front last earlier

/-- A CU that is in the table is found at the place of its key; from the next place but one on, all
CUs have moved up, and the last one is behind the end. -/
theorem insertCu_again (sorted : ∀ i k, i < k → k < table.numCus →
      (table.cuInfo i).key < (table.cuInfo k).key) {place : Nat} (inside : place < table.numCus)
    (equal : (table.cuInfo place).key = info.key) :
    insertCu table info
      = ⟨shiftedUp table.cuInfo (place + 1) table.numCus, table.numCus⟩ := by
  refine insertLoop_ignored inside (fun i first second => ?_) _ (Nat.succ_pos place) equal
  rw [← equal]
  exact sorted place i first second

/-- Two places next to each other with the same key remain, whatever is inserted. -/
theorem CuTable.Doubled.insertCu (doubled : table.Doubled) (info : CuInfo) :
    (insertCu table info).Doubled := by
  obtain ⟨i, inside, same⟩ := doubled
  obtain ⟨c, le, above, stop⟩ := exists_stop info table.cuInfo table.numCus
  rw [Cu.insertCu]
  by_cases less : c = 0 ∨ (table.cuInfo (c - 1)).key < info.key
  · rw [insertLoop_inserted le above _ less]
    rcases Nat.lt_trichotomy (i + 1) c with low | here | high
    · refine ⟨i, by simp only; omega, ?_⟩
      simp only [putCu_of_ne _ info low.ne, putCu_of_ne _ info (show i ≠ c by omega)]
      rw [shiftedUp_of_le _ low.le, shiftedUp_of_le _ (by omega), same]
    · -- the new CU would stand between them, but it is greater than the one before it
      have last := less.resolve_left (by omega)
      have next := above (i + 1) here.ge inside
      rw [← here, Nat.add_sub_cancel] at last
      omega
    · refine ⟨i + 1, by simp only; omega, ?_⟩
      simp only [putCu_of_ne _ info (show i + 1 ≠ c by omega),
        putCu_of_ne _ info (show i + 1 + 1 ≠ c by omega)]
      rw [shiftedUp_succ _ (by omega) (by omega), shiftedUp_succ _ (by omega) inside]
      exact same
  · obtain ⟨nonzero, notLess⟩ := not_or.mp less
    have equal := (stop.resolve_left nonzero).antisymm (Nat.not_lt.mp notLess)
    rw [insertLoop_ignored le above _ (Nat.pos_of_ne_zero nonzero) equal]
    rcases Nat.lt_or_ge c (i + 1) with high | low
    · -- the CU at place `c` stays and is copied to the next place
      refine ⟨c, by simp only; omega, ?_⟩
      simp only
      rw [shiftedUp_of_le _ le_rfl, shiftedUp_succ _ le_rfl (by omega)]
      rfl
    · refine ⟨i, inside, ?_⟩
      simp only
      rw [shiftedUp_of_le _ low, shiftedUp_of_le _ (by omega), same]

section

variable (holds : table.Holds infos)
include holds

theorem CuTable.Holds.exists_place {other : CuInfo}
    (member : other ∈ infos) : ∃ i < table.numCus, (table.cuInfo i).key = other.key := by
  obtain ⟨i, inside, same⟩ := List.mem_map.mp (holds.perm.mem_iff.mpr member)
  exact ⟨i, List.mem_range.mp inside, same ▸ rfl⟩

theorem CuTable.Holds.congr {cuInfo' : Nat → CuInfo}
    (same : ∀ i < table.numCus, cuInfo' i = table.cuInfo i) :
    (⟨cuInfo', table.numCus⟩ : CuTable).Holds infos where
  idx i low := (congrArg CuInfo.cuIdx (same i low)).trans (holds.idx i low)
  sorted i k first low := by
    simp only [same k low, same i (first.trans low)]
    exact holds.sorted i k first low
  perm := by
    refine List.Perm.trans (List.Perm.of_eq ?_) holds.perm
    exact List.map_congr_left fun i member => congrArg CuInfo.strip (same i (List.mem_range.mp member))

/-- A CU that comes again changes nothing if at most one CU has moved up, and otherwise leaves one of
them twice. -/
theorem CuTable.Holds.insertCu_again {other : CuInfo}
    (member : other ∈ infos) (equal : other.key = info.key) :
    if infos.countP (info.key < ·.key) ≤ 1 then (Cu.insertCu table info).Holds infos
    else (Cu.insertCu table info).Doubled := by
  obtain ⟨place, inside, found⟩ := holds.exists_place member
  have here := found.trans equal
  have greater := holds.countP_greater inside
  rw [here] at greater
  rw [Cu.insertCu_again holds.sorted inside here]
  split_ifs with few
  · exact holds.congr fun i low => shiftedUp_of_le _ (by omega) _
  · refine ⟨place + 1, by simp only; omega, ?_⟩
    simp only
    rw [shiftedUp_of_le _ le_rfl, shiftedUp_succ _ le_rfl (by omega)]
    rfl

end

/-- The table after a list of CUs is right or has a CU twice, and the list decides which. -/
theorem foldl_insertCu (infos : List CuInfo) (stripped : ∀ info ∈ infos, info.strip = info)
    (cuInfo : Nat → CuInfo) :
    (RepeatsHigh infos ∧ (infos.foldl insertCu ⟨cuInfo, 0⟩).Holds (distinctCus infos))
      ∨ (¬ RepeatsHigh infos ∧ (infos.foldl insertCu ⟨cuInfo, 0⟩).Doubled) := by
  induction infos using List.reverseRecOn with
  | nil =>
    refine .inl ⟨fun before info inside => ?_, fun i low => absurd low (Nat.not_lt_zero i),
      fun _ k _ low => absurd low (Nat.not_lt_zero k), List.Perm.refl _⟩
    simp at inside
  | append_singleton before info ih =>
    rw [List.foldl_concat, repeatsHigh_concat, distinctCus_concat]
    rcases ih fun other member => stripped other (List.mem_append_left _ member) with
      ⟨high, holds⟩ | ⟨low, doubled⟩
    · by_cases again : ∃ other ∈ before, other.key = info.key
      · obtain ⟨other, member, equal⟩ := (exists_distinctCus_iff before info).mpr again
        have effect := holds.insertCu_again member equal
        rw [if_pos again]
        split_ifs at effect with few
        · exact .inl ⟨⟨high, fun _ => few⟩, effect⟩
        · exact .inr ⟨fun both => few (both.2 again), effect⟩
      · rw [if_neg again]
        refine .inl ⟨⟨high, fun found => absurd found again⟩, ?_⟩
        refine holds.insertCu (stripped info (List.mem_append_right _ (List.mem_singleton_self info))) ?_
        intro other member equal
        exact again ((exists_distinctCus_iff before info).mp ⟨other, member, equal⟩)
    · exact .inr ⟨fun both => low both.1, doubled.insertCu info⟩

/-! ### Layouts with names -/

/-- An entry with its `m_name`. -/
structure NamedIp where
  ip : IpData
  name : Text
deriving DecidableEq, Repr

def colon : Byte := 0x3A

/-- The two calls of `strsep` on a copy of at most 63 characters. The second one has nothing to
separate if there is no colon, and what it returns then is `NULL`. -/
def splitName (name : Text) : Option (Text × Text) :=
  let kname := name.take 63
  if colon ∈ kname then
    some (kname.takeWhile (· ≠ colon),
      ((kname.dropWhile (· ≠ colon)).drop 1).takeWhile (· ≠ colon))
  else none

/-- The names of a CU are those of its entry; `none` is a copy from a null pointer. -/
def namedIpLayout2cuInfo (layout : List NamedIp) (cuInfo : Nat → CuInfo) : Option CuTable :=
  if ∀ entry ∈ layout, entry.ip.isCu = true → (splitName entry.name).isSome then
    some (kdsIpLayout2cuInfo (layout.map (·.ip)) cuInfo)
  else none

/-- The table has each CU once and in order exactly if every CU has an instance name and a CU that
comes again is, at that time, the last or the last but one in the order. -/
theorem namedIpLayout2cuInfo_holds_iff (layout : List NamedIp) (cuInfo : Nat → CuInfo) :
    (∃ table, namedIpLayout2cuInfo layout cuInfo = some table
        ∧ table.Holds (distinctCus (cuInfos (layout.map (·.ip)))))
      ↔ (∀ entry ∈ layout, entry.ip.isCu = true → colon ∈ entry.name.take 63)
        ∧ RepeatsHigh (cuInfos (layout.map (·.ip))) := by
  have named : ∀ name : Text, (splitName name).isSome = true ↔ colon ∈ name.take 63 := fun name => by
    rw [splitName]
    split_ifs with found <;> simp [found]
  rw [namedIpLayout2cuInfo]
  simp only [named]
  split_ifs with all
  · have either := foldl_insertCu (cuInfos (layout.map (·.ip))) (fun _ => cuInfos_strip) cuInfo
    simp only [Option.some.injEq, exists_eq_left', and_iff_right all]
    rcases either with ⟨high, holds⟩ | ⟨low, doubled⟩
    · exact iff_of_true holds high
    · exact iff_of_false doubled.not_holds low
  · simp [all]

/-- Four entries of one interrupt id; the first comes again behind two CUs with greater addresses. -/
def repeatedLayout : List NamedIp :=
  [0x10000, 0x20000, 0x30000, 0x10000].map fun addr => ⟨⟨.kernel, 0, addr⟩, ascii "k:k"⟩

/-- The second CU is in the table twice, and the third is lost. -/
theorem repeatedLayout_loses :
    (distinctCus (cuInfos (repeatedLayout.map (·.ip)))).map (·.addr) = [0x30000, 0x20000, 0x10000]
      ∧ (namedIpLayout2cuInfo repeatedLayout fun _ => ⟨0, 0, 0, 0⟩).map
          (fun table => (List.range table.numCus).map fun i => (table.cuInfo i).addr)
        = some [0x10000, 0x20000, 0x20000] := by
  decide

end Xrt.Cu
