import Mathlib.Data.BitVec
import Xrt.Lib.Text

/-!
# Arguments with several components

The meta data of a kernel may give an argument in several components with one index. `merge_args`
walks over the sorted arguments, merges the components of an index into the first one and erases the
others, and then checks that every argument stands at its index.
-/
namespace Xrt.Xclbin

open Lib

inductive ArgType
  | scalar
  | global
  | constant
  | localMem
  | stream
deriving DecidableEq, Repr

structure KernelArgument where
  name : Text
  hosttype : Text
  port : Text
  portWidth : BitVec 64
  index : BitVec 64
  offset : BitVec 64
  size : BitVec 64
  hostsize : BitVec 64
  faDescOffset : BitVec 64
  type : ArgType
  output : Bool
deriving DecidableEq, Repr

def noIndex : BitVec 64 := BitVec.allOnes 64

/-- The body of the inner loop. -/
def KernelArgument.merge (arg next : KernelArgument) : KernelArgument :=
  { arg with
    size := arg.size + next.size
    hostsize := arg.hostsize + next.hostsize
    offset := if next.offset < arg.offset then next.offset else arg.offset }

/-- Both loops, from an argument on that has taken in the components in front of the rest. -/
def mergeFrom (arg : KernelArgument) : List KernelArgument → List KernelArgument
  | [] => [arg]
  | next :: rest =>
    if arg.index = noIndex then arg :: next :: rest
    else if next.index ≠ arg.index then arg :: mergeFrom next rest
    else mergeFrom (arg.merge next) rest

def mergeLoop : List KernelArgument → List KernelArgument
  | [] => []
  | arg :: rest => mergeFrom arg rest

def misplaced (entry : KernelArgument × Nat) : Bool :=
  entry.1.index ≠ BitVec.ofNat 64 entry.2 && entry.1.index ≠ noIndex

def mergeArgs (args : List KernelArgument) : Except Text (List KernelArgument) :=
  let args := mergeLoop args
  if args.zipIdx.any misplaced then
    .error (ascii "xclbin parser internal error: mismatched argument index")
  else .ok args

/-! ### The components of an index -/

/-- Sums and the least offset, and the other fields of the first component. -/
structure IsMerge (components : List KernelArgument) (merged : KernelArgument) : Prop where
  size : merged.size = (components.map KernelArgument.size).sum
  hostsize : merged.hostsize = (components.map KernelArgument.hostsize).sum
  attained : ∃ c ∈ components, merged.offset = c.offset
  least : ∀ c ∈ components, merged.offset ≤ c.offset
  first : ∃ c ∈ components.head?, merged =
    { c with size := merged.size, hostsize := merged.hostsize, offset := merged.offset }

variable {arg next : KernelArgument} {args done rest : List KernelArgument}

theorem isMerge_singleton (arg : KernelArgument) : IsMerge [arg] arg where
  size := by simp
  hostsize := by simp
  attained := ⟨arg, List.mem_cons_self, rfl⟩
  least := by simp
  first := ⟨arg, rfl, rfl⟩

theorem IsMerge.concat (isMerge : IsMerge done arg) (next : KernelArgument) :
    IsMerge (done ++ [next]) (arg.merge next) where
  size := by simp [KernelArgument.merge, isMerge.size]
  hostsize := by simp [KernelArgument.merge, isMerge.hostsize]
  attained := by
    obtain ⟨c, member, same⟩ := isMerge.attained
    simp only [KernelArgument.merge]
    split
    · exact ⟨next, by simp, rfl⟩
    · exact ⟨c, List.mem_append_left _ member, same⟩
  least := by
    simp only [KernelArgument.merge, List.mem_append, List.mem_singleton]
    rintro c (member | rfl)
    · have := isMerge.least c member
      split <;> bv_omega
    · split <;> bv_omega
  first := by
    obtain ⟨c, head, same⟩ := isMerge.first
    refine ⟨c, ?_, ?_⟩
    · rw [List.head?_append, Option.mem_def.mp head]
      rfl
    · unfold KernelArgument.merge
      rw [same]

/-! ### The loop -/

def sortedBy (a b : KernelArgument) : Prop := a.index ≤ b.index

/-- One entry for each index of the given components and the rest, in their order. -/
structure Merges (components merged : List KernelArgument) : Prop where
  ascending : merged.Pairwise fun a b => a.index < b.index
  indexes : ∀ k, (∃ m ∈ merged, m.index = k) ↔ k ≠ noIndex ∧ ∃ c ∈ components, c.index = k
  isMerge : ∀ m ∈ merged, IsMerge (components.filter (·.index = m.index)) m

theorem le_noIndex (k : BitVec 64) : k ≤ noIndex := by
  have := k.isLt
  rw [BitVec.le_def, noIndex, BitVec.toNat_allOnes]
  omega

theorem mergeFrom_noIndex (none : arg.index = noIndex) : mergeFrom arg rest = arg :: rest := by
  cases rest with
  | nil => rfl
  | cons next rest => rw [mergeFrom, if_pos none]

theorem noIndex_of_sorted (sorted : (arg :: rest).Pairwise sortedBy) (none : arg.index = noIndex) :
    ∀ c ∈ arg :: rest, c.index = noIndex := by
  refine List.forall_mem_cons.mpr ⟨none, fun c member => ?_⟩
  have above : arg.index ≤ c.index := (List.pairwise_cons.mp sorted).1 c member
  exact BitVec.le_antisymm (le_noIndex c.index) (none ▸ above)

theorem filter_noIndex (none : ∀ c ∈ rest, c.index = noIndex) :
    rest.filter (·.index = noIndex) = rest :=
  List.filter_eq_self.mpr fun c member => decide_eq_true (none c member)

theorem merges_none (none : ∀ c ∈ rest, c.index = noIndex) : Merges rest [] := by
  refine ⟨List.Pairwise.nil, fun k => iff_of_false (by simp) ?_, by simp⟩
  rintro ⟨some, c, member, rfl⟩
  exact some (none c member)

variable {merged : List KernelArgument}

/-- The argument is complete, and the rest has larger indexes. -/
theorem Merges.cons (isMerge : IsMerge done arg)
    (one : ∀ c ∈ done, c.index = arg.index) (indexed : arg.index ≠ noIndex)
    (larger : ∀ c ∈ rest, arg.index < c.index) (merges : Merges rest merged) :
    Merges (done ++ rest) (arg :: merged) := by
  have above : ∀ m ∈ merged, arg.index < m.index := by
    intro m member
    obtain ⟨-, c, inside, same⟩ := (merges.indexes m.index).mp ⟨m, member, rfl⟩
    exact same ▸ larger c inside
  have own : (done ++ rest).filter (·.index = arg.index) = done := by
    rw [List.filter_append, List.filter_eq_self.mpr fun c member => by simpa using one c member,
      List.filter_eq_nil_iff.mpr fun c member => ?_, List.append_nil]
    simpa using (BitVec.ne_of_lt (larger c member)).symm
  have others : ∀ m ∈ merged,
      (done ++ rest).filter (·.index = m.index) = rest.filter (·.index = m.index) := by
    intro m member
    rw [List.filter_append, List.filter_eq_nil_iff.mpr fun c inside => ?_, List.nil_append]
    simpa [one c inside] using BitVec.ne_of_lt (above m member)
  refine ⟨List.pairwise_cons.mpr ⟨above, merges.ascending⟩, fun k => ?_, ?_⟩
  · obtain ⟨c, member, -⟩ := isMerge.attained
    constructor
    · rintro ⟨m, inside, rfl⟩
      rcases List.mem_cons.mp inside with rfl | inside
      · exact ⟨indexed, c, List.mem_append_left _ member, one c member⟩
      · obtain ⟨some, c, late, same⟩ := (merges.indexes m.index).mp ⟨m, inside, rfl⟩
        exact ⟨some, c, List.mem_append_right _ late, same⟩
    · rintro ⟨some, c, inside, rfl⟩
      rcases List.mem_append.mp inside with old | late
      · exact ⟨arg, List.mem_cons_self, (one c old).symm⟩
      · obtain ⟨m, inside, same⟩ := (merges.indexes c.index).mpr ⟨some, c, late, rfl⟩
        exact ⟨m, List.mem_cons_of_mem arg inside, same⟩
  · refine List.forall_mem_cons.mpr ⟨own.symm ▸ isMerge, fun m member => ?_⟩
    rw [others m member]
    exact merges.isMerge m member

theorem lt_noIndex (indexed : arg.index ≠ noIndex) : arg.index < noIndex :=
  BitVec.lt_of_le_ne (le_noIndex arg.index) indexed

theorem mergeFrom_spec (isMerge : IsMerge done arg) (one : ∀ c ∈ done, c.index = arg.index)
    (indexed : arg.index ≠ noIndex) (sorted : (arg :: rest).Pairwise sortedBy) :
    ∃ merged, mergeFrom arg rest = merged ++ rest.filter (·.index = noIndex)
      ∧ Merges (done ++ rest) merged := by
  -- over the rest; the components that the argument has taken in grow with it
  induction rest generalizing arg done with
  | nil => exact ⟨[arg], rfl, Merges.cons isMerge one indexed (by simp) (merges_none (by simp))⟩
  | cons next rest ih =>
    obtain ⟨first, later⟩ := List.pairwise_cons.mp sorted
    rw [mergeFrom, if_neg indexed]
    split
    next other =>
      by_cases none : next.index = noIndex
      · have all := noIndex_of_sorted later none
        refine ⟨[arg], ?_, Merges.cons isMerge one indexed (fun c member => ?_) (merges_none all)⟩
        · rw [mergeFrom_noIndex none, filter_noIndex all]
          rfl
        · exact all c member ▸ lt_noIndex indexed
      · obtain ⟨merged, equal, merges⟩ :=
          ih (isMerge_singleton next) (List.forall_mem_singleton.mpr rfl) none later
        have above : arg.index < next.index := by
          have := first next List.mem_cons_self
          unfold sortedBy at this
          bv_omega
        have larger : ∀ c ∈ next :: rest, arg.index < c.index := by
          refine List.forall_mem_cons.mpr ⟨above, fun c member => ?_⟩
          have := (List.pairwise_cons.mp later).1 c member
          unfold sortedBy at this
          bv_omega
        refine ⟨arg :: merged, ?_, Merges.cons isMerge one indexed larger merges⟩
        rw [equal, List.filter_cons_of_neg (by simpa using none)]
        rfl
    next same =>
      rw [not_not] at same
      have sorted' : (arg.merge next :: rest).Pairwise sortedBy :=
        List.pairwise_cons.mpr ⟨fun c member => first c (List.mem_cons_of_mem next member),
          (List.pairwise_cons.mp later).2⟩
      have one' : ∀ c ∈ done ++ [next], c.index = (arg.merge next).index := by
        intro c member
        rcases List.mem_append.mp member with old | new
        · exact one c old
        · rw [List.mem_singleton.mp new]
          exact same
      obtain ⟨merged, equal, merges⟩ := ih (isMerge.concat next) one' indexed sorted'
      refine ⟨merged, ?_, by rwa [List.append_assoc] at merges⟩
      rw [equal, List.filter_cons_of_neg (by simpa [same] using indexed)]

theorem mergeLoop_spec (sorted : args.Pairwise sortedBy) :
    ∃ merged, mergeLoop args = merged ++ args.filter (·.index = noIndex) ∧ Merges args merged := by
  cases args with
  | nil => exact ⟨[], rfl, merges_none (by simp)⟩
  | cons arg rest =>
    by_cases none : arg.index = noIndex
    · have all := noIndex_of_sorted sorted none
      refine ⟨[], ?_, merges_none all⟩
      rw [mergeLoop, mergeFrom_noIndex none, filter_noIndex all]
      rfl
    · obtain ⟨merged, equal, merges⟩ :=
        mergeFrom_spec (isMerge_singleton arg) (List.forall_mem_singleton.mpr rfl) none sorted
      refine ⟨merged, ?_, merges⟩
      rw [mergeLoop, equal, List.filter_cons_of_neg (by simpa using none)]

/-! ### The check of the positions -/

/-- The distinct indexes are `0 .. n - 1`. -/
def Consecutive (args : List KernelArgument) : Prop :=
  ∃ n : Nat, ∀ k : BitVec 64, k ≠ noIndex → ((∃ a ∈ args, a.index = k) ↔ k.toNat < n)

theorem Merges.consecutive_iff (merges : Merges args merged) :
    Consecutive args ↔ ∃ n : Nat, ∀ k : BitVec 64,
      (∃ m ∈ merged, m.index = k) ↔ k ≠ noIndex ∧ k.toNat < n := by
  refine exists_congr fun n => forall_congr' fun k => ?_
  rw [merges.indexes k, and_congr_right_iff]

theorem any_misplaced_iff (indexed : ∀ m ∈ merged, m.index ≠ noIndex)
    (none : ∀ c ∈ rest, c.index = noIndex) :
    (merged ++ rest).zipIdx.any misplaced = false
      ↔ ∀ i m, merged[i]? = some m → m.index = BitVec.ofNat 64 i := by
  simp only [List.any_eq_false, Prod.forall, List.mem_zipIdx_iff_getElem?, misplaced,
    Bool.and_eq_true, decide_eq_true_eq, not_and, not_not]
  constructor
  · intro placed i m found
    have member := List.mem_of_getElem? found
    have bound := (List.getElem?_eq_some_iff.mp found).1
    by_contra other
    exact indexed m member (placed m i (by rw [List.getElem?_append_left bound, found]) other)
  · intro placed c i found other
    rcases lt_or_ge i merged.length with bound | bound
    · rw [List.getElem?_append_left bound] at found
      exact absurd (placed i c found) other
    · rw [List.getElem?_append_right bound] at found
      exact none c (List.mem_of_getElem? found)

theorem Merges.placed_iff (merges : Merges args merged) :
    (∀ i m, merged[i]? = some m → m.index = BitVec.ofNat 64 i) ↔ Consecutive args := by
  rw [merges.consecutive_iff]
  constructor
  · intro placed
    -- an entry at the position of `noIndex` would have no index
    have few : merged.length ≤ noIndex.toNat := by
      by_contra many
      have found := List.getElem?_eq_getElem (not_le.mp many)
      have equal := placed _ _ found
      rw [BitVec.ofNat_toNat, BitVec.setWidth_eq] at equal
      exact ((merges.indexes _).mp ⟨_, List.mem_of_getElem? found, equal⟩).1 rfl
    have size : noIndex.toNat = 2 ^ 64 - 1 := BitVec.toNat_allOnes
    refine ⟨merged.length, fun k => ⟨?_, ?_⟩⟩
    · rintro ⟨m, member, rfl⟩
      obtain ⟨i, found⟩ := List.getElem?_of_mem member
      have bound := (List.getElem?_eq_some_iff.mp found).1
      refine ⟨((merges.indexes _).mp ⟨m, member, rfl⟩).1, ?_⟩
      rw [placed i m found, BitVec.toNat_ofNat, Nat.mod_eq_of_lt (by omega)]
      exact bound
    · rintro ⟨-, bound⟩
      have found := List.getElem?_eq_getElem bound
      refine ⟨_, List.mem_of_getElem? found, ?_⟩
      rw [placed _ _ found, BitVec.ofNat_toNat, BitVec.setWidth_eq]
  · rintro ⟨n, all⟩
    -- both lists ascend and have the same members
    have positions : merged.map (·.index.toNat) = List.range (min n noIndex.toNat) := by
      have ascending : (merged.map (·.index.toNat)).Pairwise (· < ·) :=
        List.pairwise_map.mpr merges.ascending
      refine ascending.eq_of_mem_iff List.pairwise_lt_range fun k => ?_
      rw [List.mem_map, List.mem_range, lt_min_iff]
      constructor
      · rintro ⟨m, member, rfl⟩
        obtain ⟨some, below⟩ := (all m.index).mp ⟨m, member, rfl⟩
        exact ⟨below, lt_noIndex some⟩
      · rintro ⟨below, small⟩
        have whole : (BitVec.ofNat 64 k).toNat = k := by
          rw [BitVec.toNat_ofNat, Nat.mod_eq_of_lt (small.trans noIndex.isLt)]
        obtain ⟨m, member, equal⟩ := (all (BitVec.ofNat 64 k)).mpr
          ⟨fun none => absurd (whole ▸ congrArg BitVec.toNat none) small.ne, whole.symm ▸ below⟩
        exact ⟨m, member, equal ▸ whole⟩
    intro i m found
    have at_i := congrArg (·[i]?) positions
    simp only [List.getElem?_map, found, Option.map_some] at at_i
    obtain ⟨bound, equal⟩ := List.getElem?_eq_some_iff.mp at_i.symm
    rw [List.getElem_range] at equal
    rw [equal, BitVec.ofNat_toNat, BitVec.setWidth_eq]

theorem mergeArgs_right (args : List KernelArgument) (sorted : args.Pairwise sortedBy) :
    ∃ merged, Merges args merged
      ∧ mergeLoop args = merged ++ args.filter (·.index = noIndex)
      ∧ (Consecutive args → mergeArgs args = .ok (merged ++ args.filter (·.index = noIndex)))
      ∧ (¬ Consecutive args → mergeArgs args
          = .error (ascii "xclbin parser internal error: mismatched argument index")) := by
  obtain ⟨merged, equal, merges⟩ := mergeLoop_spec sorted
  have indexed : ∀ m ∈ merged, m.index ≠ noIndex := fun m member =>
    ((merges.indexes m.index).mp ⟨m, member, rfl⟩).1
  have none : ∀ c ∈ args.filter (·.index = noIndex), c.index = noIndex := fun c member => by
    simpa using List.of_mem_filter member
  have checked := (any_misplaced_iff indexed none).trans merges.placed_iff
  refine ⟨merged, merges, equal, fun consecutive => ?_, fun gap => ?_⟩
  · rw [mergeArgs, equal, if_neg (by simp [checked.mpr consecutive])]
  · rw [mergeArgs, equal, if_pos (Bool.of_not_eq_false fun all => gap (checked.mp all))]

/-- A kernel with an argument in two components. -/
def globalSize (offset : BitVec 64) : KernelArgument where
  name := ascii "global_size"
  hosttype := ascii "uint"
  port := ascii "S_AXI_CONTROL"
  portWidth := 32
  index := 0
  offset
  size := 4
  hostsize := 4
  faDescOffset := 0
  type := .scalar
  output := false

theorem two_components_right :
    ∃ merged, Merges [globalSize 0x14, globalSize 0x10] merged
      ∧ mergeLoop [globalSize 0x14, globalSize 0x10]
        = merged ++ [globalSize 0x14, globalSize 0x10].filter (·.index = noIndex)
      ∧ (Consecutive [globalSize 0x14, globalSize 0x10] →
          mergeArgs [globalSize 0x14, globalSize 0x10]
            = .ok (merged ++ [globalSize 0x14, globalSize 0x10].filter (·.index = noIndex)))
      ∧ (¬ Consecutive [globalSize 0x14, globalSize 0x10] →
          mergeArgs [globalSize 0x14, globalSize 0x10]
            = .error (ascii "xclbin parser internal error: mismatched argument index")) :=
  mergeArgs_right _ (List.pairwise_pair.mpr (BitVec.le_refl _))

end Xrt.Xclbin
