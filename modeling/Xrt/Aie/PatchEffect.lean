import Xrt.Aie.Patcher

/-!
# What a patch does to the memory

Which bits a patch adds to, and which bits it changes. Patches that share no bits commute, and
patching a list of places is a fold over those before the first that throws.
-/
namespace Xrt.Aie

open Lib

/-! ### Addresses -/

theorem setWidth_and_congr {x y : BitVec 32} (mask : BitVec 32) (same : x &&& mask = y &&& mask) :
    x.setWidth 64 &&& mask.setWidth 64 = y.setWidth 64 &&& mask.setWidth 64 := by
  rw [← BitVec.setWidth_and, same, BitVec.setWidth_and]

theorem setWidth_and_32 (x : BitVec 64) (mask : BitVec 32) :
    (x &&& mask.setWidth 64).setWidth 32 = x.setWidth 32 &&& mask := by
  rw [BitVec.setWidth_and, BitVec.setWidth_setWidth_of_le _ (by decide), BitVec.setWidth_eq]

theorem acts_setWord (ptr : BitVec 64) (i : Nat) (v : BitVec 32) :
    Acts (fun m => setWord m ptr i v) ∅ (masked (wordAt ptr i) (BitVec.allOnes 32)) := by
  have acts := acts_merge (wordAt ptr i) 0 v
  simp only [← write32_eq_merge] at acts
  exact acts.mono (masked_subset _ _)

/-- The bits of the address in `patch57`. -/
def bits57 (ptr : BitVec 64) : Set Bit :=
  masked (wordAt ptr 1) (BitVec.allOnes 32) ∪ masked (wordAt ptr 2) 0xFFFF
    ∪ masked (wordAt ptr 8) 0x1FF

def bits57Aie4 (ptr : BitVec 64) : Set Bit :=
  masked (wordAt ptr 1) (BitVec.allOnes 32) ∪ masked (wordAt ptr 0) 0x1FFFFFF

def bits48 (low : Nat) (ptr : BitVec 64) : Set Bit :=
  masked (wordAt ptr low) (BitVec.allOnes 32) ∪ masked (wordAt ptr (low + 1)) 0xFFF

/-- The words that `patch48` writes. -/
def words48 (low : Nat) (ptr : BitVec 64) : Set Bit :=
  masked (wordAt ptr low) (BitVec.allOnes 32) ∪ masked (wordAt ptr (low + 1)) (BitVec.allOnes 32)

theorem acts_patch57 (ptr patch : BitVec 64) :
    Acts (fun m => patch57 m ptr patch) (bits57 ptr) (bits57 ptr) := by
  apply acts_of_value (g := fun m => ((word m ptr 8).setWidth 64 &&& 0x1FF) <<< 48
    ||| ((word m ptr 2).setWidth 64 &&& 0xFFFF) <<< 32 ||| (word m ptr 1).setWidth 64)
    (f := fun held m =>
      let baseAddress := held + patch
      let m := setWord m ptr 1 ((baseAddress &&& 0xFFFFFFFF).setWidth 32)
      let m := setWord m ptr 2
        (word m ptr 2 &&& 0xFFFF0000 ||| (baseAddress >>> 32 &&& 0xFFFF).setWidth 32)
      setWord m ptr 8 (word m ptr 8 &&& 0xFFFFFE00 ||| (baseAddress >>> 48 &&& 0x1FF).setWidth 32))
  -- the address is made of the bits of `bits57` alone
  · intro m n agree
    have low : word m ptr 1 = word n ptr 1 :=
      read32_congr fun b inside => agree b (Or.inl (Or.inl inside))
    have middle : (word m ptr 2).setWidth 64 &&& 0xFFFF = (word n ptr 2).setWidth 64 &&& 0xFFFF :=
      setWidth_and_congr 0xFFFF (read32_and_congr fun b inside => agree b (Or.inl (Or.inr inside)))
    have high : (word m ptr 8).setWidth 64 &&& 0x1FF = (word n ptr 8).setWidth 64 &&& 0x1FF :=
      setWidth_and_congr 0x1FF (read32_and_congr fun b inside => agree b (Or.inr inside))
    rw [low, middle, high]
  -- and it is written to these
  · intro held
    have middle := acts_replace (wordAt ptr 2) 0xFFFF (((held + patch) >>> 32).setWidth 32)
    have high := acts_replace (wordAt ptr 8) 0x1FF (((held + patch) >>> 48).setWidth 32)
    rw [← setWidth_and_32] at middle high
    exact ((acts_setWord ptr 1 _).comp middle).comp high

theorem acts_patch57Aie4 (ptr patch : BitVec 64) :
    Acts (fun m => patch57Aie4 m ptr patch) (bits57Aie4 ptr) (bits57Aie4 ptr) := by
  apply acts_of_value (g := fun m =>
    ((word m ptr 0).setWidth 64 &&& 0x1FFFFFF) <<< 32 ||| (word m ptr 1).setWidth 64)
    (f := fun held m =>
      let baseAddress := held + (patch + ddrAieAddrOffset)
      let m := setWord m ptr 1 ((baseAddress &&& 0xFFFFFFFF).setWidth 32)
      setWord m ptr 0
        (word m ptr 0 &&& 0xFE000000 ||| (baseAddress >>> 32 &&& 0x1FFFFFF).setWidth 32))
  · intro m n agree
    have low : word m ptr 1 = word n ptr 1 := read32_congr fun b inside => agree b (Or.inl inside)
    have high :
        (word m ptr 0).setWidth 64 &&& 0x1FFFFFF = (word n ptr 0).setWidth 64 &&& 0x1FFFFFF :=
      setWidth_and_congr 0x1FFFFFF (read32_and_congr fun b inside => agree b (Or.inr inside))
    rw [low, high]
  · intro held
    have high := acts_replace (wordAt ptr 0) 0x1FFFFFF
      (((held + (patch + ddrAieAddrOffset)) >>> 32).setWidth 32)
    rw [← setWidth_and_32] at high
    exact (acts_setWord ptr 1 _).comp high

theorem acts_patch48 (low : Nat) (ptr patch : BitVec 64) :
    Acts (fun m => patch48 low m ptr patch) (bits48 low ptr) (words48 low ptr) := by
  apply acts_of_value (g := fun m =>
    ((word m ptr (low + 1)).setWidth 64 &&& 0xFFF) <<< 32 ||| (word m ptr low).setWidth 64)
    (f := fun held m =>
      let baseAddress := held + patch + ddrAieAddrOffset
      let m := setWord m ptr low ((baseAddress &&& 0xFFFFFFFC).setWidth 32)
      setWord m ptr (low + 1)
        (word m ptr (low + 1) &&& 0xFFFF0000 ||| (baseAddress >>> 32).setWidth 32))
  · intro m n agree
    have lower : word m ptr low = word n ptr low :=
      read32_congr fun b inside => agree b (Or.inl inside)
    have upper :
        (word m ptr (low + 1)).setWidth 64 &&& 0xFFF = (word n ptr (low + 1)).setWidth 64 &&& 0xFFF :=
      setWidth_and_congr 0xFFF (read32_and_congr fun b inside => agree b (Or.inr inside))
    rw [lower, upper]
  · intro held
    -- the upper half of the word is kept and joined with the bits of the sum above 2^48
    have upper := acts_merge (wordAt ptr (low + 1)) 0xFFFF0000
      (((held + patch + ddrAieAddrOffset) >>> 32).setWidth 32)
    exact (acts_setWord ptr low _).comp (upper.mono (masked_subset _ _))

/-! ### Sites -/

namespace Site

/-- The patch does not throw. -/
def runs (site : Site) : Bool :=
  match site.symbolType with
  | .scalar32bitKind => site.mask = 0 ∨ site.ptr &&& 0x3 = 0
  | .shimDmaBaseAddrSymbolKind | .shimDmaAie4BaseAddrSymbolKind => true
  | .controlPacket48 | .shimDma48 => true
  | _ => false

/-- The memory after the patch. -/
def apply (site : Site) (newValue : BitVec 64) (m : ByteMem) : ByteMem :=
  match site.patch newValue m with
  | .ok patched => patched
  | .error _ => m

/-- The bits of the address that the value is added to. -/
def sources (site : Site) : Set Bit :=
  match site.symbolType with
  | .shimDmaBaseAddrSymbolKind => bits57 site.ptr
  | .shimDmaAie4BaseAddrSymbolKind => bits57Aie4 site.ptr
  | .controlPacket48 => bits48 2 site.ptr
  | .shimDma48 => bits48 1 site.ptr
  | _ => ∅

def changes (site : Site) : Set Bit :=
  match site.symbolType with
  | .scalar32bitKind => masked site.ptr site.mask
  | .shimDmaBaseAddrSymbolKind => bits57 site.ptr
  | .shimDmaAie4BaseAddrSymbolKind => bits57Aie4 site.ptr
  | .controlPacket48 => words48 2 site.ptr
  | .shimDma48 => words48 1 site.ptr
  | _ => ∅

theorem patch_scalar {site : Site} (scalar : site.symbolType = .scalar32bitKind)
    (newValue : BitVec 64) (m : ByteMem) : site.patch newValue m
      = if site.mask ≠ 0 then patch32 m site.ptr newValue site.mask else .ok m := by
  simp only [Site.patch, scalar]

theorem runs_scalar {site : Site} (scalar : site.symbolType = .scalar32bitKind) :
    site.runs = true ↔ site.mask = 0 ∨ site.ptr &&& 0x3 = 0 := by
  simp only [Site.runs, scalar, decide_eq_true_eq]

theorem patch_of_runs {site : Site} (runs : site.runs = true) (newValue : BitVec 64) (m : ByteMem) :
    site.patch newValue m = .ok (site.apply newValue m) := by
  have succeeds : ∃ patched, site.patch newValue m = .ok patched := by
    cases type : site.symbolType with
    | scalar32bitKind =>
      rw [patch_scalar type]
      by_cases zero : site.mask = 0
      · exact ⟨m, if_neg (not_not.mpr zero)⟩
      · have aligned := ((runs_scalar type).mp runs).resolve_left zero
        rw [if_pos zero, patch32, if_neg (not_not.mpr aligned)]
        exact ⟨_, rfl⟩
    | ucDmaRemotePtrSymbolKind => simp [Site.runs, type] at runs
    | unknownSymbolKind => simp [Site.runs, type] at runs
    | other value => simp [Site.runs, type] at runs
    | _ =>
      simp only [Site.patch, type]
      exact ⟨_, rfl⟩
  obtain ⟨patched, result⟩ := succeeds
  simp only [apply, result]

theorem patch_of_not_runs {site : Site} (fails : site.runs = false) (newValue : BitVec 64)
    (m : ByteMem) : ∃ e, site.patch newValue m = .error e := by
  cases type : site.symbolType with
  | scalar32bitKind =>
    have neither : ¬ (site.mask = 0 ∨ site.ptr &&& 0x3 = 0) := by
      rw [← runs_scalar type, fails]
      exact Bool.false_ne_true
    rw [not_or] at neither
    rw [patch_scalar type, if_pos neither.1, patch32, if_pos neither.2]
    exact ⟨_, rfl⟩
  | ucDmaRemotePtrSymbolKind =>
    simp only [Site.patch, type]
    exact ⟨_, rfl⟩
  | unknownSymbolKind =>
    simp only [Site.patch, type]
    exact ⟨_, rfl⟩
  | other value =>
    simp only [Site.patch, type]
    exact ⟨_, rfl⟩
  | _ => simp [Site.runs, type] at fails

theorem apply_scalar {site : Site} (scalar : site.symbolType = .scalar32bitKind)
    (runs : site.runs = true) (newValue : BitVec 64) (m : ByteMem) :
    site.apply newValue m
      = merge m site.ptr (~~~ site.mask) (newValue.setWidth 32 &&& site.mask) := by
  unfold apply
  rw [patch_scalar scalar]
  by_cases zero : site.mask = 0
  · rw [if_neg (not_not.mpr zero), zero]
    -- a mask without bits leaves the word as it is
    refine ext_bitAt fun b => ((acts_replace site.ptr 0 _).frame m b ?_).symm
    rintro ⟨k, set, -⟩
    simp at set
  · have aligned := ((runs_scalar scalar).mp runs).resolve_left zero
    rw [if_pos zero, patch32, if_neg (not_not.mpr aligned)]
    rfl

theorem acts (site : Site) (runs : site.runs = true) (newValue : BitVec 64) :
    Acts (site.apply newValue) site.sources site.changes := by
  cases type : site.symbolType with
  | scalar32bitKind =>
    have replaced := acts_replace site.ptr site.mask (newValue.setWidth 32)
    simp only [← apply_scalar type runs] at replaced
    simpa only [sources, changes, type] using replaced
  | shimDmaBaseAddrSymbolKind =>
    have patched : site.apply newValue = fun m =>
        patch57 m site.ptr (newValue + site.offsetToBaseBoAddr.setWidth 64) := by
      funext m
      simp only [apply, Site.patch, type]
    simpa only [patched, sources, changes, type] using acts_patch57 site.ptr _
  | shimDmaAie4BaseAddrSymbolKind =>
    have patched : site.apply newValue = fun m =>
        patch57Aie4 m site.ptr (newValue + site.offsetToBaseBoAddr.setWidth 64) := by
      funext m
      simp only [apply, Site.patch, type]
    simpa only [patched, sources, changes, type] using acts_patch57Aie4 site.ptr _
  | controlPacket48 =>
    have patched : site.apply newValue = fun m =>
        patch48 2 m site.ptr (newValue + site.offsetToBaseBoAddr.setWidth 64) := by
      funext m
      simp only [apply, Site.patch, type, patchCtrl48]
    simpa only [patched, sources, changes, type] using acts_patch48 2 site.ptr _
  | shimDma48 =>
    have patched : site.apply newValue = fun m =>
        patch48 1 m site.ptr (newValue + site.offsetToBaseBoAddr.setWidth 64) := by
      funext m
      simp only [apply, Site.patch, type, patchShim48]
    simpa only [patched, sources, changes, type] using acts_patch48 1 site.ptr _
  | _ => simp [Site.runs, type] at runs

end Site

/-! ### Lists of sites -/

variable {xs ys : List (Site × BitVec 64)} {m : ByteMem}

theorem patchSites_cons_of_runs {site : Site} (runs : site.runs = true) (newValue : BitVec 64)
    (xs : List (Site × BitVec 64)) (m : ByteMem) :
    patchSites ((site, newValue) :: xs) m = patchSites xs (site.apply newValue m) := by
  rw [patchSites, Site.patch_of_runs runs]

theorem patchSites_cons_of_not_runs {site : Site} (fails : site.runs = false) (newValue : BitVec 64)
    (xs : List (Site × BitVec 64)) (m : ByteMem) :
    ∃ e, patchSites ((site, newValue) :: xs) m = (.error e, m) := by
  obtain ⟨e, thrown⟩ := Site.patch_of_not_runs fails newValue m
  exact ⟨e, by rw [patchSites, thrown]⟩

theorem patchSites_append_of_ok {m' : ByteMem} (ok : patchSites xs m = (.ok (), m')) :
    patchSites (xs ++ ys) m = patchSites ys m' := by
  induction xs generalizing m with
  | nil =>
    cases ok
    rfl
  | cons x xs ih =>
    obtain ⟨site, newValue⟩ := x
    cases runs : site.runs with
    | true =>
      rw [patchSites_cons_of_runs runs] at ok
      rw [List.cons_append, patchSites_cons_of_runs runs, ih ok]
    | false =>
      obtain ⟨e, thrown⟩ := patchSites_cons_of_not_runs runs newValue xs m
      rw [thrown] at ok
      cases ok

theorem patchSites_append_of_error {e : Error} {m' : ByteMem}
    (error : patchSites xs m = (.error e, m')) : patchSites (xs ++ ys) m = (.error e, m') := by
  induction xs generalizing m with
  | nil => cases error
  | cons x xs ih =>
    obtain ⟨site, newValue⟩ := x
    rw [List.cons_append]
    cases result : site.patch newValue m with
    | ok patched =>
      rw [patchSites, result] at error ⊢
      exact ih error
    | error thrown =>
      rw [patchSites, result] at error ⊢
      exact error

/-- One patch of a list. -/
def applySite (m : ByteMem) (x : Site × BitVec 64) : ByteMem := x.1.apply x.2 m

theorem patchSites_snd (xs : List (Site × BitVec 64)) (m : ByteMem) :
    (patchSites xs m).2 = (xs.takeWhile fun x => x.1.runs).foldl applySite m := by
  induction xs generalizing m with
  | nil => rfl
  | cons x xs ih =>
    obtain ⟨site, newValue⟩ := x
    cases runs : site.runs with
    | true => simp [patchSites_cons_of_runs runs, ih, runs, applySite]
    | false =>
      obtain ⟨e, thrown⟩ := patchSites_cons_of_not_runs runs newValue xs m
      rw [thrown, List.takeWhile_cons_of_neg (by simp [runs])]
      rfl

/-- The memory, if nothing was thrown. -/
def done {α : Type} (outcome : Except Error α × ByteMem) : Option ByteMem :=
  match outcome.1 with
  | .ok _ => some outcome.2
  | .error _ => none

theorem done_patchSites (xs : List (Site × BitVec 64)) (m : ByteMem) :
    done (patchSites xs m)
      = if ∀ x ∈ xs, x.1.runs = true then some (xs.foldl applySite m) else none := by
  induction xs generalizing m with
  | nil => simp [patchSites, done]
  | cons x xs ih =>
    obtain ⟨site, newValue⟩ := x
    cases runs : site.runs with
    | true => simp only [patchSites_cons_of_runs runs, ih, List.forall_mem_cons, runs, true_and,
        List.foldl_cons, applySite]
    | false =>
      obtain ⟨e, thrown⟩ := patchSites_cons_of_not_runs runs newValue xs m
      simp [thrown, done, runs]

end Xrt.Aie
