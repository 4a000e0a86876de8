import Xrt.Lib.Run
import Xrt.Aie.Module

/-!
# The relocation table and the patchers made of it

Every relocation has a scheme, an addend and a mask of its own. The AIE2P flow collects the places of
an argument in one patcher, with the scheme of the first; the AIE2PS flow keeps the first place, and
takes the whole addend for the scheme. The patchers apply every relocation as it is in the table
under a condition on the table, and only then.
-/
namespace Xrt.Aie

open Lib

def ModuleElf.places (parent : ModuleElf) (elf : Elf) :
    Except Error (List (Place × Elf32Rela)) :=
  elf.rela.mapM fun rela => do
    let place ← if elf.osAbi = elfAmdAie2ps then findPlaceAie2ps elf parent.ctrlcodes rela
      else findPlace elf parent.bufs rela
    .ok (place, rela)

/-- What the relocations of a file say, in order. -/
def ModuleElf.table (parent : ModuleElf) (elf : Elf) : Except Error (List Entry) := do
  let places ← parent.places elf
  .ok (places.map fun x => x.1.entry x.2)

def entriesOf (table : List Entry) (argnm : Text) (type : BufType) : List Entry :=
  table.filter fun e => e.argnm = argnm ∧ e.bufType = type

/-- How the relocations of an argument are to be applied in a buffer. -/
def own (table : List Entry) (argnm : Text) (type : BufType) : List (SymbolType × PatchInfo) :=
  (entriesOf table argnm type).map fun e => (e.scheme, e.info)

def Patcher.applied (p : Patcher) : List (SymbolType × PatchInfo) :=
  p.ctrlcodePatchinfo.map (p.symbolType, ·)

def ModuleElf.applied (parent : ModuleElf) (argnm : Text) (type : BufType) :
    List (SymbolType × PatchInfo) :=
  match parent.arg2patcher (generateKeyString argnm type) with
  | none => []
  | some p => p.applied

/-- AIE2P: the relocations of an argument in one buffer have one scheme. AIE2PS: every argument has
one relocation, without addend and mask. -/
def OwnSchemes (elf : Elf) (table : List Entry) : Prop :=
  if elf.osAbi = elfAmdAie2ps then
    (table.map Entry.argnm).Nodup
      ∧ ∀ e ∈ table, e.info.offsetToBaseBoAddr = 0 ∧ e.info.mask = 0
  else
    ∀ e ∈ table, ∀ f ∈ table, e.argnm = f.argnm → e.bufType = f.bufType → e.scheme = f.scheme

/-! ### The patchers of the AIE2P flow -/

variable {elf : Elf} {es : List Entry} {argnm : Text} {type : BufType}

theorem entriesOf_cons (e : Entry) (es : List Entry) (argnm : Text) (type : BufType) :
    entriesOf (e :: es) argnm type
      = if e.argnm = argnm ∧ e.bufType = type then e :: entriesOf es argnm type
        else entriesOf es argnm type := by
  unfold entriesOf
  rw [List.filter_cons]
  simp only [decide_eq_true_eq]

theorem mem_entriesOf {e : Entry} :
    e ∈ entriesOf es argnm type ↔ e ∈ es ∧ e.argnm = argnm ∧ e.bufType = type := by
  simp [entriesOf]

theorem key_eq_iff {e : Entry} :
    generateKeyString argnm type = generateKeyString e.argnm e.bufType
      ↔ e.argnm = argnm ∧ e.bufType = type := by
  constructor
  · intro same
    obtain ⟨names, types⟩ := generateKeyString_inj same
    exact ⟨names.symm, types.symm⟩
  · rintro ⟨rfl, rfl⟩
    rfl

/-- The patcher that the entries of an argument make of the one that is there. -/
def extend (found : Option Patcher) : List Entry → Option Patcher
  | [] => found
  | e :: es =>
    match found with
    | some p => some { p with
        ctrlcodePatchinfo := p.ctrlcodePatchinfo ++ (e :: es).map Entry.info }
    | none => some ⟨e.bufType, e.scheme, (e :: es).map Entry.info⟩

theorem foldl_add (es : List Entry) (arg2patchers : Patchers) (argnm : Text) (type : BufType) :
    es.foldl Patchers.add arg2patchers (generateKeyString argnm type)
      = extend (arg2patchers (generateKeyString argnm type)) (entriesOf es argnm type) := by
  induction es generalizing arg2patchers with
  | nil => rfl
  | cons e es ih =>
    rw [List.foldl_cons, ih, entriesOf_cons]
    -- an entry of another argument or buffer has another key
    by_cases mine : e.argnm = argnm ∧ e.bufType = type
    · obtain ⟨rfl, rfl⟩ := mine
      unfold Patchers.add
      cases found : arg2patchers (generateKeyString e.argnm e.bufType) with
      | none =>
        cases entriesOf es e.argnm e.bufType <;> simp [extend]
      | some p =>
        cases entriesOf es e.argnm e.bufType <;> simp [extend]
    · have other : generateKeyString argnm type ≠ generateKeyString e.argnm e.bufType :=
        fun same => mine (key_eq_iff.mp same)
      rw [if_neg mine]
      unfold Patchers.add
      cases arg2patchers (generateKeyString e.argnm e.bufType) <;>
        simp only [Function.update_of_ne other]

theorem initializeArgPatchers_ok_iff {bufs : Bufs} {relas : List Elf32Rela}
    {arg2patchers result : Patchers} :
    initializeArgPatchers elf bufs relas arg2patchers = .ok result
      ↔ ∃ places, (relas.mapM fun rela => do
          let place ← findPlace elf bufs rela
          .ok (place, rela)) = .ok places
        ∧ (places.map fun x => x.1.entry x.2).foldl Patchers.add arg2patchers = result := by
  simp only [List.foldl_map]
  apply loop_ok_iff (fun _ => rfl)
  intro rela relas arg2patchers
  rw [initializeArgPatchers, findEntry]
  cases findPlace elf bufs rela <;> rfl

theorem applied_eq_own_iff_scheme {parent : ModuleElf}
    (patchers : parent.arg2patcher = es.foldl Patchers.add fun _ => none) :
    (∀ argnm type, parent.applied argnm type = own es argnm type)
      ↔ ∀ e ∈ es, ∀ f ∈ es, e.argnm = f.argnm → e.bufType = f.bufType → e.scheme = f.scheme := by
  have applied : ∀ argnm type, parent.applied argnm type = match entriesOf es argnm type with
      | [] => []
      | e :: rest => (e :: rest).map fun f => (e.scheme, f.info) := by
    intro argnm type
    unfold ModuleElf.applied
    rw [patchers, foldl_add]
    cases entriesOf es argnm type with
    | nil => rfl
    | cons e rest => simp [extend, Patcher.applied]
  constructor
  · intro all e inside f inside' names types
    have here := all f.argnm f.bufType
    rw [applied, own] at here
    cases found : entriesOf es f.argnm f.bufType with
    | nil =>
      have member := mem_entriesOf.mpr ⟨inside', rfl, rfl⟩
      rw [found] at member
      cases member
    | cons first rest =>
      -- both have the scheme of the first entry of their argument
      rw [found] at here
      have scheme : ∀ g ∈ first :: rest, first.scheme = g.scheme := fun g member =>
        congrArg Prod.fst (List.map_inj_left.mp here g member)
      rw [← scheme e (found ▸ mem_entriesOf.mpr ⟨inside, names, types⟩),
        ← scheme f (found ▸ mem_entriesOf.mpr ⟨inside', rfl, rfl⟩)]
  · intro same argnm type
    rw [applied, own]
    cases found : entriesOf es argnm type with
    | nil => rfl
    | cons first rest =>
      have key : ∀ g ∈ first :: rest, g ∈ es ∧ g.argnm = argnm ∧ g.bufType = type :=
        fun g member => mem_entriesOf.mp (found ▸ member)
      obtain ⟨inside, name, buf⟩ := key first List.mem_cons_self
      apply List.map_congr_left
      intro g member
      obtain ⟨inside', name', buf'⟩ := key g member
      rw [same first inside g inside' (name.trans name'.symm) (buf.trans buf'.symm)]

/-! ### The patchers of the AIE2PS flow -/

/-- The entry that the AIE2PS flow makes of a relocation. -/
def entryAie2ps (x : Place × Elf32Rela) : Entry :=
  ⟨x.1.argnm, x.1.bufType, SymbolType.cast x.2.rAddend, ⟨x.1.offset, 0, 0⟩⟩

theorem foldl_emplace (es : List Entry) (arg2patcher : Patchers) (argnm : Text) (type : BufType) :
    es.foldl Patchers.emplace arg2patcher (generateKeyString argnm type)
      = match arg2patcher (generateKeyString argnm type) with
        | some p => some p
        | none => (entriesOf es argnm type).head?.map fun e => ⟨e.bufType, e.scheme, [e.info]⟩ := by
  induction es generalizing arg2patcher with
  | nil => cases found : arg2patcher (generateKeyString argnm type) <;> simp [found, entriesOf]
  | cons e es ih =>
    rw [List.foldl_cons, ih, entriesOf_cons]
    -- `emplace` keeps the patcher that is there
    by_cases mine : e.argnm = argnm ∧ e.bufType = type
    · obtain ⟨rfl, rfl⟩ := mine
      unfold Patchers.emplace
      cases found : arg2patcher (generateKeyString e.argnm e.bufType) with
      | none => simp [Function.update_self]
      | some p => simp [found]
    · have other : generateKeyString argnm type ≠ generateKeyString e.argnm e.bufType :=
        fun same => mine (key_eq_iff.mp same)
      rw [if_neg mine]
      unfold Patchers.emplace
      cases arg2patcher (generateKeyString e.argnm e.bufType) <;>
        simp only [Function.update_of_ne other]

theorem findPlaceAie2ps_bufType {ctrlcodes : List (List Byte)} {rela : Elf32Rela} {place : Place}
    (ok : findPlaceAie2ps elf ctrlcodes rela = .ok place) : place.bufType = .ctrltext := by
  obtain ⟨⟨sym, argnm⟩, -, rest⟩ := ok_of_bind_ok ok
  obtain ⟨sec, -, rest⟩ := ok_of_bind_ok rest
  obtain ⟨⟨col, page⟩, -, rest⟩ := ok_of_bind_ok rest
  dsimp only at rest
  split at rest
  · cases rest
  · split at rest
    · cases rest
    · cases rest
      rfl

theorem initializeArgPatchersAie2ps_ok_iff {ctrlcodes : List (List Byte)} {relas : List Elf32Rela}
    {arg2patcher result : Patchers} :
    initializeArgPatchersAie2ps elf ctrlcodes relas arg2patcher = .ok result
      ↔ ∃ places, (relas.mapM fun rela => do
          let place ← findPlaceAie2ps elf ctrlcodes rela
          .ok (place, rela)) = .ok places
        ∧ (places.map entryAie2ps).foldl Patchers.emplace arg2patcher = result := by
  simp only [List.foldl_map]
  apply loop_ok_iff (fun _ => rfl)
  intro rela relas arg2patcher
  rw [initializeArgPatchersAie2ps, findEntryAie2ps]
  cases findPlaceAie2ps elf ctrlcodes rela <;> rfl

theorem and_schemaMask {x : BitVec 32} (zero : (x &&& addendMask) >>> addendShift = 0) :
    x &&& schemaMask = x := by
  apply BitVec.eq_of_getLsbD_eq
  intro k small
  rw [BitVec.getLsbD_and]
  -- the scheme has the low four bits, the addend the others
  by_cases low : k < 4
  · have mask : schemaMask.getLsbD k = true := by
      have cases : k = 0 ∨ k = 1 ∨ k = 2 ∨ k = 3 := by omega
      rcases cases with rfl | rfl | rfl | rfl <;> decide
    rw [mask, Bool.and_true]
  · have bit := congrArg (fun y => y.getLsbD (k - 4)) zero
    have mask : addendMask.getLsbD k = true := by
      simp only [addendMask, addendShift, BitVec.getLsbD_shiftLeft, BitVec.getLsbD_allOnes]
      simp only [small, low, decide_true, decide_false, Bool.not_false, Bool.true_and,
        decide_eq_true_eq]
      omega
    have place : addendShift + (k - 4) = k := by
      rw [addendShift]
      omega
    rw [BitVec.getLsbD_ushiftRight, place, BitVec.getLsbD_and, mask, Bool.and_true] at bit
    rw [bit]
    simp

theorem entry_eq_entryAie2ps_iff (x : Place × Elf32Rela) :
    ((entryAie2ps x).scheme, (entryAie2ps x).info) = ((x.1.entry x.2).scheme, (x.1.entry x.2).info)
      ↔ (x.1.entry x.2).info.offsetToBaseBoAddr = 0 ∧ (x.1.entry x.2).info.mask = 0 := by
  constructor
  · intro same
    have infos := congrArg Prod.snd same
    exact ⟨(congrArg PatchInfo.offsetToBaseBoAddr infos).symm, (congrArg PatchInfo.mask infos).symm⟩
  · rintro ⟨addend, mask⟩
    have scheme : x.2.rAddend &&& schemaMask = x.2.rAddend := and_schemaMask addend
    have info : (x.1.entry x.2).info = ⟨x.1.offset, 0, 0⟩ := by
      change PatchInfo.mk x.1.offset (x.1.entry x.2).info.offsetToBaseBoAddr
        (x.1.entry x.2).info.mask = _
      rw [addend, mask]
    rw [info]
    simp only [entryAie2ps, Place.entry, scheme]

section Places

variable {parent : ModuleElf} {places : List (Place × Elf32Rela)}

/-- The relocations of an argument in a buffer. -/
def placesOf (places : List (Place × Elf32Rela)) (argnm : Text) (type : BufType) :
    List (Place × Elf32Rela) :=
  places.filter fun x => x.1.argnm = argnm ∧ x.1.bufType = type

theorem applied_aie2ps
    (patchers : parent.arg2patcher
      = (places.map entryAie2ps).foldl Patchers.emplace fun _ => none)
    (argnm : Text) (type : BufType) :
    parent.applied argnm type = ((placesOf places argnm type).take 1).map fun x =>
      ((entryAie2ps x).scheme, (entryAie2ps x).info) := by
  have filtered : entriesOf (places.map entryAie2ps) argnm type
      = (placesOf places argnm type).map entryAie2ps := List.filter_map
  unfold ModuleElf.applied
  rw [patchers, foldl_emplace, filtered]
  cases placesOf places argnm type <;> simp [Patcher.applied]

theorem own_places (argnm : Text) (type : BufType) :
    own (places.map fun x => x.1.entry x.2) argnm type
      = (placesOf places argnm type).map fun x => ((x.1.entry x.2).scheme, (x.1.entry x.2).info) := by
  have filtered : entriesOf (places.map fun x => x.1.entry x.2) argnm type
      = (placesOf places argnm type).map fun x => x.1.entry x.2 := List.filter_map
  rw [own, filtered, List.map_map]
  rfl

theorem nodup_argnm_iff (types : ∀ x ∈ places, x.1.bufType = .ctrltext) :
    ((places.map fun x => x.1.entry x.2).map Entry.argnm).Nodup
      ↔ ∀ argnm type, (placesOf places argnm type).length ≤ 1 := by
  have counted : ∀ argnm, List.count argnm ((places.map fun x => x.1.entry x.2).map Entry.argnm)
      = (placesOf places argnm .ctrltext).length := by
    intro argnm
    rw [List.map_map, List.count, List.countP_map, List.countP_eq_length_filter, placesOf]
    congr 1
    apply List.filter_congr
    intro x inside
    rw [Bool.eq_iff_iff]
    simp [types x inside, Place.entry]
  rw [List.nodup_iff_count_le_one]
  constructor
  · intro each argnm type
    by_cases same : type = .ctrltext
    · rw [same, ← counted]
      exact each argnm
    · have none : placesOf places argnm type = [] := List.filter_eq_nil_iff.mpr fun x inside => by
        simp [types x inside, Ne.symm same]
      rw [none]
      exact Nat.zero_le 1
  · intro each argnm
    rw [counted]
    exact each argnm .ctrltext

theorem applied_eq_own_iff_single
    (patchers : parent.arg2patcher
      = (places.map entryAie2ps).foldl Patchers.emplace fun _ => none)
    (types : ∀ x ∈ places, x.1.bufType = .ctrltext) :
    (∀ argnm type, parent.applied argnm type
        = own (places.map fun x => x.1.entry x.2) argnm type)
      ↔ ((places.map fun x => x.1.entry x.2).map Entry.argnm).Nodup
        ∧ ∀ e ∈ places.map fun x => x.1.entry x.2,
          e.info.offsetToBaseBoAddr = 0 ∧ e.info.mask = 0 := by
  simp only [applied_aie2ps patchers, own_places, nodup_argnm_iff types]
  constructor
  · intro all
    have single : ∀ argnm type, (placesOf places argnm type).length ≤ 1 := by
      intro argnm type
      -- a second relocation of an argument is not applied at all
      have lengths := congrArg List.length (all argnm type)
      rw [List.length_map, List.length_map, List.length_take] at lengths
      omega
    refine ⟨single, ?_⟩
    intro e member
    obtain ⟨x, inside, rfl⟩ := List.mem_map.mp member
    have here := all x.1.argnm x.1.bufType
    rw [List.take_of_length_le (single _ _)] at here
    have member : x ∈ placesOf places x.1.argnm x.1.bufType := by simp [placesOf, inside]
    exact (entry_eq_entryAie2ps_iff x).mp (List.map_inj_left.mp here x member)
  · rintro ⟨single, plain⟩ argnm type
    rw [List.take_of_length_le (single argnm type)]
    apply List.map_congr_left
    intro x member
    have inside : x ∈ places := (List.mem_filter.mp member).1
    exact (entry_eq_entryAie2ps_iff x).mpr (plain _ (List.mem_map_of_mem inside))

end Places

/-! ### Accepted files -/

def Made (elf : Elf) (parent : ModuleElf) (places : List (Place × Elf32Rela)) : Prop :=
  if elf.osAbi = elfAmdAie2ps then
    parent.arg2patcher = (places.map entryAie2ps).foldl Patchers.emplace (fun _ => none)
      ∧ ∀ x ∈ places, x.1.bufType = .ctrltext
  else
    parent.arg2patcher = (places.map fun x => x.1.entry x.2).foldl Patchers.add fun _ => none

variable {parent : ModuleElf} {places : List (Place × Elf32Rela)}

theorem moduleElf_made (flow : elf.osAbi = elfAmdAie2p ∨ elf.osAbi = elfAmdAie2ps)
    (accepted : moduleElf elf = .ok parent) :
    ∃ places, parent.places elf = .ok places ∧ Made elf parent places := by
  unfold moduleElf at accepted
  unfold ModuleElf.places Made
  by_cases aie2ps : elf.osAbi = elfAmdAie2ps
  · simp only [if_pos aie2ps] at accepted ⊢
    obtain ⟨ctrlcodes, -, rest⟩ := ok_of_bind_ok accepted
    obtain ⟨arg2patcher, patchersOk, made⟩ := ok_of_bind_ok rest
    obtain ⟨places, placesOk, patchers⟩ := initializeArgPatchersAie2ps_ok_iff.mp patchersOk
    cases made
    refine ⟨places, placesOk, patchers.symm, forall_mem_of_mapM_ok placesOk ?_⟩
    intro rela x found
    obtain ⟨place, placeOk, made⟩ := ok_of_bind_ok found
    cases made
    exact findPlaceAie2ps_bufType placeOk
  · have aie2p := flow.resolve_right aie2ps
    simp only [if_neg aie2ps, if_pos aie2p] at accepted ⊢
    obtain ⟨bufs, -, rest⟩ := ok_of_bind_ok accepted
    obtain ⟨arg2patcher, patchersOk, made⟩ := ok_of_bind_ok rest
    obtain ⟨places, placesOk, patchers⟩ := initializeArgPatchers_ok_iff.mp patchersOk
    cases made
    exact ⟨places, placesOk, patchers.symm⟩

/-- The patchers of a module apply every relocation of the file as the table says if and only if the
schemes of the table allow it. -/
theorem Made.applied_iff (made : Made elf parent places) :
    (∀ argnm type, parent.applied argnm type
        = own (places.map fun x => x.1.entry x.2) argnm type)
      ↔ OwnSchemes elf (places.map fun x => x.1.entry x.2) := by
  unfold Made at made
  unfold OwnSchemes
  by_cases aie2ps : elf.osAbi = elfAmdAie2ps
  · rw [if_pos aie2ps] at made ⊢
    exact applied_eq_own_iff_single made.1 made.2
  · rw [if_neg aie2ps] at made ⊢
    exact applied_eq_own_iff_scheme made

theorem Made.patchinfo_ne_nil (made : Made elf parent places) {p : Patcher}
    (found : parent.arg2patcher (generateKeyString argnm type) = some p) :
    p.ctrlcodePatchinfo ≠ [] := by
  unfold Made at made
  by_cases aie2ps : elf.osAbi = elfAmdAie2ps
  · rw [if_pos aie2ps] at made
    rw [made.1, foldl_emplace] at found
    simp only [Option.map_eq_some_iff] at found
    obtain ⟨e, -, rfl⟩ := found
    exact List.cons_ne_nil _ _
  · rw [if_neg aie2ps] at made
    rw [made, foldl_add] at found
    cases entries : entriesOf (places.map fun x => x.1.entry x.2) argnm type with
    | nil =>
      rw [entries] at found
      cases found
    | cons e rest =>
      rw [entries] at found
      cases found
      exact List.cons_ne_nil _ _

end Xrt.Aie
