import Mathlib
import Huicpp.Utils.RollFixBuffer

/-!
# Utils.ItemRegions

Which bytes the items of a `RollFixBuffer` occupy, and what the accepted calls do to them. The block
is large enough for the items exactly if its size does not overflow an `int`: otherwise `malloc` is
asked for fewer bytes than there are, and the item around the end of the block lies outside.
-/

namespace Huicpp
namespace Utils

open Cxx

namespace Geometry

variable {geo : Geometry}

/-- The number of groups, of items in a group and of bytes in an item. -/
def groups (geo : Geometry) : Nat := geo.iGroupCount.toNatClampNeg
def items (geo : Geometry) : Nat := geo.iGroupItemCount.toNatClampNeg
def bytes (geo : Geometry) : Nat := geo.iItemSize.toNatClampNeg

/-- The size of the block does not overflow. -/
def Fits (geo : Geometry) : Prop := geo.groups * geo.items * geo.bytes < 2 ^ 31

instance (geo : Geometry) : Decidable geo.Fits := Nat.decLt ..

/-- The reference that the constructor makes for item `j` of group `i`. -/
def item (geo : Geometry) (i j : Nat) : BufferItemRef where
  iGroupId := Int32.ofNat i
  index := Int32.ofNat j
  iSize := geo.iItemSize
  ptr := (Int32.ofNat i * geo.iGroupItemCount * geo.iItemSize +
    Int32.ofNat j * geo.iItemSize).toInt

namespace Positive

theorem groups_eq (h : geo.Positive) : (geo.groups : Int) = geo.iGroupCount.toInt :=
  Int.toNat_of_nonneg (Int32.lt_iff_toInt_lt.mp h.groupCount).le

theorem items_eq (h : geo.Positive) : (geo.items : Int) = geo.iGroupItemCount.toInt :=
  Int.toNat_of_nonneg (Int32.lt_iff_toInt_lt.mp h.groupItemCount).le

theorem bytes_eq (h : geo.Positive) : (geo.bytes : Int) = geo.iItemSize.toInt :=
  Int.toNat_of_nonneg (Int32.lt_iff_toInt_lt.mp h.itemSize).le

theorem bytes_pos (h : geo.Positive) : 0 < geo.bytes := by
  have hpos : (0 : Int) < geo.iItemSize.toInt := Int32.lt_iff_toInt_lt.mp h.itemSize
  have heq := h.bytes_eq
  omega

theorem items_pos (h : geo.Positive) : 0 < geo.items := by
  have hpos : (0 : Int) < geo.iGroupItemCount.toInt := Int32.lt_iff_toInt_lt.mp h.groupItemCount
  have heq := h.items_eq
  omega

end Positive

theorem groups_lt (geo : Geometry) : geo.groups < 2 ^ 31 := by
  have hlt := geo.iGroupCount.toInt_lt
  rw [groups, Int32.toNatClampNeg]
  omega

theorem items_lt (geo : Geometry) : geo.items < 2 ^ 31 := by
  have hlt := geo.iGroupItemCount.toInt_lt
  rw [items, Int32.toNatClampNeg]
  omega

/-! ## The constructor -/

theorem ofNat_lt {n : Nat} {x : Int32} (h : n < x.toNatClampNeg) : Int32.ofNat n < x := by
  have hlt := x.toInt_lt
  rw [Int32.toNatClampNeg] at h
  rw [Int32.lt_iff_toInt_lt, Int32.toInt_ofNat_of_lt (by omega)]
  omega

theorem createItems_eq {i : Nat} (hi : i < geo.groups) {js : List Nat}
    (hjs : ∀ j ∈ js, j < geo.items) :
    geo.createItems (Int32.ofNat i) js = .ok (js.map (geo.item i)) := by
  induction js with
  | nil => rfl
  | cons j js ih =>
    have hj := hjs j List.mem_cons_self
    rw [createItems, getMemItem, if_pos (ofNat_lt hi), if_pos (ofNat_lt hj),
      ih fun k hk => hjs k (List.mem_cons_of_mem j hk)]
    rfl

theorem createQueues_eq {is : List Nat} (his : ∀ i ∈ is, i < geo.groups) :
    geo.createQueues is = .ok (is.map fun i => (List.range geo.items).map (geo.item i)) := by
  induction is with
  | nil => rfl
  | cons i is ih =>
    rw [createQueues, ← items, createItems_eq (his i List.mem_cons_self) fun j hj => List.mem_range.mp hj,
      ih fun k hk => his k (List.mem_cons_of_mem i hk)]
    rfl

/-! ## Addresses -/

section Addresses

variable {i j : Nat}

theorem item_ptr (h : geo.Positive) (hi : i < 2 ^ 31) (hj : j < 2 ^ 31)
    (hfit : (i * geo.items + j) * geo.bytes < 2 ^ 31) :
    (geo.item i j).ptr = ((i * geo.items + j) * geo.bytes : Nat) := by
  have hS := h.bytes_pos
  have hmul : (i * geo.items + j) * geo.bytes =
      i * geo.items * geo.bytes + j * geo.bytes := Nat.add_mul ..
  have hC : i * geo.items ≤ i * geo.items * geo.bytes := Nat.le_mul_of_pos_right _ hS
  have hi' : (Int32.ofNat i).toInt = i := Int32.toInt_ofNat_of_lt hi
  have hj' : (Int32.ofNat j).toInt = j := Int32.toInt_ofNat_of_lt hj
  have h1 : (Int32.ofNat i * geo.iGroupItemCount).toInt = (i * geo.items : Nat) := by
    have heq : (Int32.ofNat i).toInt * geo.iGroupItemCount.toInt = (i * geo.items : Nat) := by
      rw [hi', ← h.items_eq, Nat.cast_mul]
    rw [toInt_mul_of_lt (by omega) (by omega), heq]
  have h2 : (Int32.ofNat i * geo.iGroupItemCount * geo.iItemSize).toInt =
      (i * geo.items * geo.bytes : Nat) := by
    have heq : (Int32.ofNat i * geo.iGroupItemCount).toInt * geo.iItemSize.toInt =
        (i * geo.items * geo.bytes : Nat) := by
      rw [h1, ← h.bytes_eq, ← Nat.cast_mul]
    rw [toInt_mul_of_lt (by omega) (by omega), heq]
  have h3 : (Int32.ofNat j * geo.iItemSize).toInt = (j * geo.bytes : Nat) := by
    have heq : (Int32.ofNat j).toInt * geo.iItemSize.toInt = (j * geo.bytes : Nat) := by
      rw [hj', ← h.bytes_eq, Nat.cast_mul]
    rw [toInt_mul_of_lt (by omega) (by omega), heq]
  rw [item, toInt_add_of_lt (by omega) (by omega), h2, h3, hmul, Nat.cast_add]

theorem item_region (h : geo.Positive) (hi : i < 2 ^ 31) (hj : j < 2 ^ 31)
    (hfit : (i * geo.items + j) * geo.bytes < 2 ^ 31) :
    (geo.item i j).region =
      Set.Ico (((i * geo.items + j) * geo.bytes : Nat) : Int)
        ((i * geo.items + j + 1) * geo.bytes : Nat) := by
  rw [BufferItemRef.region, item_ptr h hi hj hfit]
  congr 1
  rw [show (geo.item i j).iSize = geo.iItemSize from rfl, ← h.bytes_eq, ← Nat.cast_add,
    Nat.add_mul _ 1, Nat.one_mul]

end Addresses

theorem div_mod_items (h : geo.Positive) {k : Nat} (hk : k < geo.groups * geo.items) :
    k / geo.items < geo.groups ∧ k % geo.items < geo.items ∧
      k / geo.items * geo.items + k % geo.items = k :=
  ⟨Nat.div_lt_of_lt_mul (by rwa [Nat.mul_comm]), Nat.mod_lt _ h.items_pos, Nat.div_add_mod' ..⟩

theorem place_lt {i j : Nat} (hi : i < geo.groups) (hj : j < geo.items) :
    i * geo.items + j < geo.groups * geo.items := by
  have hle : (i + 1) * geo.items ≤ geo.groups * geo.items := Nat.mul_le_mul_right _ hi
  rw [Nat.add_mul, Nat.one_mul] at hle
  omega

theorem blockSize_eq (h : geo.Positive) (hfit : geo.Fits) :
    geo.blockSize.toInt = (geo.groups * geo.items * geo.bytes : Nat) := by
  rw [Fits] at hfit
  have hle : geo.groups * geo.items ≤ geo.groups * geo.items * geo.bytes :=
    Nat.le_mul_of_pos_right _ h.bytes_pos
  have h1 : (geo.iGroupCount * geo.iGroupItemCount).toInt = (geo.groups * geo.items : Nat) := by
    have heq : geo.iGroupCount.toInt * geo.iGroupItemCount.toInt =
        (geo.groups * geo.items : Nat) := by
      rw [← h.groups_eq, ← h.items_eq, Nat.cast_mul]
    rw [toInt_mul_of_lt (by omega) (by omega), heq]
  have heq : (geo.iGroupCount * geo.iGroupItemCount).toInt * geo.iItemSize.toInt =
      (geo.groups * geo.items * geo.bytes : Nat) := by
    rw [h1, ← h.bytes_eq, ← Nat.cast_mul]
  rw [blockSize, toInt_mul_of_lt (by omega) (by omega), heq]

end Geometry

namespace RollFixBuffer

variable {available : Nat → Bool} {mem : Int → Byte} {geo : Geometry} {s₀ : RollFixBuffer}

/-- What the constructor leaves. -/
structure Constructed (geo : Geometry) (s : RollFixBuffer) : Prop where
  geometry : s.geometry = geo
  block : (s.block : Int) = geo.blockSize.toInt
  queues : s.queues = (List.range geo.groups).map fun i =>
    (List.range geo.items).map (geo.item i)
  allRefPts : s.allRefPts = s.queues.flatten
  buffer : ∀ r, s.buffer r = false

theorem construct_eq_ok (h : construct available mem geo = .ok s₀) : Constructed geo s₀ := by
  rw [construct] at h
  split at h
  · cases h
  · rename_i block hblock
    obtain ⟨rfl, hsize, _⟩ := malloc_eq_some hblock
    rw [← Geometry.groups, Geometry.createQueues_eq fun i hi => List.mem_range.mp hi] at h
    cases h
    exact ⟨rfl, toSizeT_of_nonneg (nonneg_of_toSizeT_lt hsize), rfl, rfl, fun _ => rfl⟩

namespace Constructed

theorem mem_allRefPts (h : Constructed geo s₀) {r : BufferItemRef} :
    r ∈ s₀.allRefPts ↔ ∃ i < geo.groups, ∃ j < geo.items, geo.item i j = r := by
  rw [h.allRefPts, h.queues]
  simp only [List.mem_flatten, List.mem_map, List.mem_range]
  constructor
  · rintro ⟨_, ⟨i, hi, rfl⟩, hr⟩
    obtain ⟨j, hj, rfl⟩ := List.mem_map.mp hr
    exact ⟨i, hi, j, List.mem_range.mp hj, rfl⟩
  · rintro ⟨i, hi, j, hj, rfl⟩
    exact ⟨_, ⟨i, hi, rfl⟩, List.mem_map.mpr ⟨j, List.mem_range.mpr hj, rfl⟩⟩

end Constructed

/-- Every item is inside the block, and two items have no byte in common. -/
structure RegionsOk (s : RollFixBuffer) : Prop where
  inside : ∀ r ∈ s.allRefPts, r.region ⊆ Set.Ico (0 : Int) s.block
  disjoint : ∀ r ∈ s.allRefPts, ∀ r' ∈ s.allRefPts,
    (r.iGroupId, r.index) ≠ (r'.iGroupId, r'.index) → Disjoint r.region r'.region

theorem regionsOk_of_fits (hpos : geo.Positive) (h : Constructed geo s₀) (hfit : geo.Fits) :
    RegionsOk s₀ := by
  have hlarge : ∀ {i j : Nat}, i < geo.groups → j < geo.items →
      (i * geo.items + j + 1) * geo.bytes ≤ geo.groups * geo.items * geo.bytes :=
    fun hi hj => Nat.mul_le_mul_right _ (Geometry.place_lt hi hj)
  have hregion : ∀ {i j : Nat}, i < geo.groups → j < geo.items →
      (geo.item i j).region = Set.Ico (((i * geo.items + j) * geo.bytes : Nat) : Int)
        ((i * geo.items + j + 1) * geo.bytes : Nat) := by
    intro i j hi hj
    refine Geometry.item_region hpos (hi.trans geo.groups_lt) (hj.trans geo.items_lt) ?_
    have hle := hlarge hi hj
    rw [Nat.add_mul _ 1] at hle
    rw [Geometry.Fits] at hfit
    omega
  constructor
  · intro r hr
    obtain ⟨i, hi, j, hj, rfl⟩ := h.mem_allRefPts.mp hr
    rw [hregion hi hj, h.block, Geometry.blockSize_eq hpos hfit]
    exact Set.Ico_subset_Ico (Nat.cast_nonneg _) (Nat.cast_le.mpr (hlarge hi hj))
  · intro r hr r' hr' hne
    obtain ⟨i, hi, j, hj, rfl⟩ := h.mem_allRefPts.mp hr
    obtain ⟨i', hi', j', hj', rfl⟩ := h.mem_allRefPts.mp hr'
    have hplace : i * geo.items + j ≠ i' * geo.items + j' := by
      intro heq
      apply hne
      have hidiv : i = i' := by
        have hdiv := congrArg (· / geo.items) heq
        simpa [Nat.mul_add_div hpos.items_pos, Nat.mul_comm _ geo.items, Nat.div_eq_of_lt hj,
          Nat.div_eq_of_lt hj'] using hdiv
      subst hidiv
      have hjj : j = j' := by omega
      rw [hjj]
    rw [hregion hi hj, hregion hi' hj', Set.Ico_disjoint_Ico]
    rcases Nat.lt_or_gt_of_ne hplace with hlt | hlt
    · have hle := Nat.mul_le_mul_right geo.bytes (show i * geo.items + j + 1 ≤ _ from hlt)
      exact le_max_of_le_right (min_le_of_left_le (Nat.cast_le.mpr hle))
    · have hle := Nat.mul_le_mul_right geo.bytes (show i' * geo.items + j' + 1 ≤ _ from hlt)
      exact le_max_of_le_left (min_le_of_right_le (Nat.cast_le.mpr hle))

/-- When the size overflows, the item in which the block ends is not inside it. -/
theorem fits_of_regionsOk (hpos : geo.Positive) (h : Constructed geo s₀) (hok : RegionsOk s₀) :
    geo.Fits := by
  by_contra hfit
  rw [Geometry.Fits] at hfit
  have hS := hpos.bytes_pos
  have hblock : s₀.block < 2 ^ 31 := by
    have hlt := geo.blockSize.toInt_lt
    have heq := h.block
    omega
  have hk : s₀.block / geo.bytes < geo.groups * geo.items :=
    Nat.div_lt_of_lt_mul (by rw [Nat.mul_comm]; omega)
  obtain ⟨hi, hj, hplace⟩ := Geometry.div_mod_items hpos hk
  have hle : s₀.block / geo.bytes * geo.bytes ≤ s₀.block := Nat.div_mul_le_self ..
  have hend : s₀.block < (s₀.block / geo.bytes + 1) * geo.bytes := by
    rw [Nat.mul_comm]
    exact Nat.lt_mul_div_succ _ hS
  have hregion := Geometry.item_region hpos (hi.trans geo.groups_lt) (hj.trans geo.items_lt)
    (by rw [hplace]; omega)
  rw [hplace] at hregion
  have hmem : (((s₀.block / geo.bytes + 1) * geo.bytes : Nat) : Int) - 1 ∈
      (geo.item (s₀.block / geo.bytes / geo.items) (s₀.block / geo.bytes % geo.items)).region := by
    rw [hregion, Nat.add_mul, Nat.one_mul]
    exact ⟨by omega, by omega⟩
  have hinside := hok.inside _ (h.mem_allRefPts.mpr ⟨_, hi, _, hj, rfl⟩) hmem
  have hlt := hinside.2
  omega

/-! ## Calls -/

inductive Call where
  | pop (iGroupId : Int32) (r : BufferItemRef)
  | write (r : BufferItemRef) (pdata : Nat → Byte) (len : Int32)
  | pullBack (r : BufferItemRef)

/-- The calls that the code accepts. After an access before the beginning of `m_queues` the buffer
may be anything. -/
inductive Step : RollFixBuffer → Call → RollFixBuffer → Prop where
  | pop {s s' : RollFixBuffer} {iGroupId : Int32} {r : BufferItemRef} :
      s.pop iGroupId = .returns r s' → Step s (.pop iGroupId r) s'
  | popOutOfBounds {s s' : RollFixBuffer} {iGroupId : Int32} {r : BufferItemRef} :
      s.pop iGroupId = .outOfBounds → Step s (.pop iGroupId r) s'
  | write {s s' : RollFixBuffer} {r : BufferItemRef} {pdata : Nat → Byte} {len : Int32} :
      r ∈ s.allRefPts → r.write s pdata len = .ok s' → Step s (.write r pdata len) s'
  | pullBack {s s' : RollFixBuffer} {r : BufferItemRef} :
      r ∈ s.allRefPts → r.pullBack s = .ok s' → Step s (.pullBack r) s'

def system (s₀ : RollFixBuffer) : TransitionSystem RollFixBuffer Call where
  init s := s = s₀
  step := Step

/-- `Pop` uses a queue that there is, and `Write` stores only to bytes of its own item, which is
inside the block. -/
def OwnBytes (s : RollFixBuffer) (a : Call) (s' : RollFixBuffer) : Prop :=
  match a with
  | .pop iGroupId _ => 0 ≤ iGroupId ∧ iGroupId.toInt < s.queues.length
  | .write r _ len => r.stored len ⊆ r.region ∧ r.region ⊆ Set.Ico (0 : Int) s.block ∧
      ∀ a ∉ r.region, s'.mem a = s.mem a
  | .pullBack _ => s'.mem = s.mem

/-- The group of every `Pop` and the length of every `Write` are not negative. -/
def NonNeg (_ : RollFixBuffer) (a : Call) (_ : RollFixBuffer) : Prop :=
  match a with
  | .pop iGroupId _ => 0 ≤ iGroupId
  | .write _ _ len => 0 ≤ len
  | .pullBack _ => True

/-- The last `Write` through `r`. -/
def lastWrite (r : BufferItemRef) : List Call → Option ((Nat → Byte) × Int32)
  | [] => none
  | .write r' pdata len :: tr =>
    if r' = r then (lastWrite r tr).or (some (pdata, len)) else lastWrite r tr
  | .pop _ _ :: tr => lastWrite r tr
  | .pullBack _ :: tr => lastWrite r tr

/-- The bytes last written through each reference are there. -/
def Intact (refs : List BufferItemRef) (tr : List Call) (s : RollFixBuffer) : Prop :=
  ∀ r ∈ refs, ∀ pdata len, lastWrite r tr = some (pdata, len) →
    ∀ k : Nat, (k : Int) < len.toInt → s.mem (r.ptr + k) = pdata k

/-! ## Runs -/

theorem lastWrite_append (r : BufferItemRef) (tr : List Call) (a : Call) :
    lastWrite r (tr ++ [a]) = (lastWrite r [a]).or (lastWrite r tr) := by
  induction tr with
  | nil => simp [lastWrite]
  | cons b tr ih =>
    cases b with
    | pop g r' => exact ih
    | pullBack r' => exact ih
    | write r' pdata len =>
      rw [List.cons_append, lastWrite, lastWrite, ih]
      split
      · rw [Option.or_assoc]
      · rfl

section Runs

variable {s s' : RollFixBuffer} {tr : List Call} {a : Call}

/-- What an accepted call leaves alone, and what it does to the bytes. -/
structure Frame (s : RollFixBuffer) (a : Call) (s' : RollFixBuffer) : Prop where
  geometry : s'.geometry = s.geometry
  block : s'.block = s.block
  queues : s'.queues.length = s.queues.length
  allRefPts : s'.allRefPts = s.allRefPts
  mem : ∀ r pdata len, a = .write r pdata len →
    r ∈ s.allRefPts ∧ len < r.iSize ∧ s'.mem = memcpy s.mem r.ptr pdata (toSizeT len)
  quiet : (∀ r pdata len, a ≠ .write r pdata len) → s'.mem = s.mem

theorem pop_returns {iGroupId : Int32} {r : BufferItemRef} (h : s.pop iGroupId = .returns r s') :
    Frame s (.pop iGroupId r) s' := by
  rw [pop] at h
  split at h
  · split at h
    · split at h
      · cases h
      · cases h
      · cases h
        exact ⟨rfl, rfl, List.length_set .., rfl, nofun, fun _ => rfl⟩
    · cases h
  · cases h

theorem pop_outOfBounds {iGroupId : Int32} (hlen : s.geometry.iGroupCount.toInt ≤ s.queues.length)
    (h : s.pop iGroupId = .outOfBounds) : ¬ 0 ≤ iGroupId := by
  intro hg
  rw [pop] at h
  split at h
  · rename_i hlt
    have hlt' := Int32.lt_iff_toInt_lt.mp hlt
    have hg' : 0 ≤ iGroupId.toInt := Int32.le_iff_toInt_le.mp hg
    rw [List.getElem?_eq_getElem (by omega)] at h
    split at h
    · rename_i hnone
      cases hnone
    · cases h
    · cases h
  · cases h

theorem Step.frame (hlen : s.geometry.iGroupCount.toInt ≤ s.queues.length) (h : Step s a s')
    (hnn : NonNeg s a s') : Frame s a s' := by
  cases h with
  | pop h => exact pop_returns h
  | popOutOfBounds h => exact absurd hnn (pop_outOfBounds hlen h)
  | write hr h =>
    rw [BufferItemRef.write] at h
    split at h
    · rename_i hlt
      cases h
      refine ⟨rfl, rfl, rfl, rfl, ?_, fun hno => absurd rfl (hno _ _ _)⟩
      rintro _ _ _ ⟨⟩
      exact ⟨hr, hlt, rfl⟩
    · cases h
  | pullBack hr h =>
    rw [BufferItemRef.pullBack] at h
    split at h
    · cases h
      exact ⟨rfl, rfl, List.length_modify .., rfl, nofun, fun _ => rfl⟩
    · cases h

/-- What holds as long as no argument is negative. -/
structure Kept (geo : Geometry) (s₀ : RollFixBuffer) (tr : List Call) (s : RollFixBuffer) :
    Prop where
  geometry : s.geometry = geo
  block : s.block = s₀.block
  queues : s.queues.length = geo.groups
  allRefPts : s.allRefPts = s₀.allRefPts
  short : ∀ r pdata len, lastWrite r tr = some (pdata, len) → len < r.iSize
  intact : Intact s₀.allRefPts tr s

namespace Kept

theorem init (h : Constructed geo s₀) : Kept geo s₀ [] s₀ where
  geometry := h.geometry
  block := rfl
  queues := by rw [h.queues, List.length_map, List.length_range]
  allRefPts := rfl
  short _ _ _ h := by cases h
  intact _ _ _ _ h := by cases h

theorem intact_write (hk : Kept geo s₀ tr s) (hregions : RegionsOk s₀)
    (hids : ∀ r ∈ s₀.allRefPts, ∀ r' ∈ s₀.allRefPts,
      (r.iGroupId, r.index) = (r'.iGroupId, r'.index) → r = r')
    {r : BufferItemRef} {pdata : Nat → Byte} {len : Int32} (hr : r ∈ s₀.allRefPts)
    (hlt : len < r.iSize) (hnn : 0 ≤ len)
    (hmem : s'.mem = memcpy s.mem r.ptr pdata (toSizeT len)) :
    Intact s₀.allRefPts (tr ++ [.write r pdata len]) s' := by
  have hsize : (toSizeT len : Int) = len.toInt := toSizeT_of_nonneg (Int32.le_iff_toInt_le.mp hnn)
  have hlt' : len.toInt < r.iSize.toInt := Int32.lt_iff_toInt_lt.mp hlt
  intro r' hr' pdata' len' hlast k hkl
  rw [lastWrite_append, lastWrite, lastWrite, Option.none_or] at hlast
  by_cases hrr : r = r'
  · subst hrr
    rw [if_pos rfl, Option.some_or, Option.some.injEq, Prod.mk.injEq] at hlast
    obtain ⟨rfl, rfl⟩ := hlast
    rw [hmem, memcpy_at (by omega)]
  · rw [if_neg hrr, Option.none_or] at hlast
    have hshort := Int32.lt_iff_toInt_lt.mp (hk.short r' pdata' len' hlast)
    have hdisj := hregions.disjoint r hr r' hr' fun heq => hrr (hids r hr r' hr' heq)
    have hin : r'.ptr + k ∈ r'.region := ⟨by omega, by omega⟩
    have hout : r'.ptr + k ∉ Set.Ico r.ptr (r.ptr + toSizeT len) := by
      intro hcover
      exact Set.disjoint_left.mp hdisj ⟨hcover.1, by have := hcover.2; omega⟩ hin
    rw [hmem, memcpy_outside hout]
    exact hk.intact r' hr' pdata' len' hlast k hkl

theorem step (hpos : geo.Positive) (h₀ : Constructed geo s₀) (hregions : RegionsOk s₀)
    (hk : Kept geo s₀ tr s) (h : Step s a s') (hnn : NonNeg s a s') :
    Kept geo s₀ (tr ++ [a]) s' := by
  have hf := h.frame (by rw [hk.geometry, hk.queues, hpos.groups_eq]) hnn
  have hlast : ∀ r pdata len, lastWrite r (tr ++ [a]) = some (pdata, len) →
      a = .write r pdata len ∨ lastWrite r tr = some (pdata, len) := by
    intro r pdata len hl
    rw [lastWrite_append] at hl
    cases a with
    | pop g r' => exact .inr hl
    | pullBack r' => exact .inr hl
    | write r' pdata' len' =>
      rw [lastWrite, lastWrite, Option.none_or] at hl
      split at hl
      · rename_i hrr
        cases hl
        exact .inl (by rw [hrr])
      · exact .inr hl
  refine ⟨hf.geometry.trans hk.geometry, hf.block.trans hk.block, hf.queues.trans hk.queues,
    hf.allRefPts.trans hk.allRefPts, ?_, ?_⟩
  · intro r pdata len hl
    rcases hlast r pdata len hl with hw | hl
    · exact (hf.mem r pdata len hw).2.1
    · exact hk.short r pdata len hl
  · cases a with
    | write r pdata len =>
      obtain ⟨hr, hlt, hmem⟩ := hf.mem r pdata len rfl
      refine hk.intact_write hregions ?_ (hk.allRefPts ▸ hr) hlt hnn hmem
      intro r hr r' hr' heq
      obtain ⟨i, _, j, _, rfl⟩ := h₀.mem_allRefPts.mp hr
      obtain ⟨i', _, j', _, rfl⟩ := h₀.mem_allRefPts.mp hr'
      obtain ⟨hi, hj⟩ := Prod.mk.inj heq
      rw [Geometry.item, Geometry.item, show Int32.ofNat i = Int32.ofNat i' from hi,
        show Int32.ofNat j = Int32.ofNat j' from hj]
    | pop g r =>
      intro r' hr' pdata len hl k hkl
      rcases hlast r' pdata len hl with hw | hl
      · cases hw
      · rw [hf.quiet nofun]
        exact hk.intact r' hr' pdata len hl k hkl
    | pullBack r =>
      intro r' hr' pdata len hl k hkl
      rcases hlast r' pdata len hl with hw | hl
      · cases hw
      · rw [hf.quiet nofun]
        exact hk.intact r' hr' pdata len hl k hkl

end Kept

theorem Kept.ownBytes (hpos : geo.Positive) (hregions : RegionsOk s₀) (hk : Kept geo s₀ tr s)
    (h : Step s a s') (hnn : NonNeg s a s') : OwnBytes s a s' := by
  have hf := h.frame (by rw [hk.geometry, hk.queues, hpos.groups_eq]) hnn
  cases a with
  | pop iGroupId r =>
    refine ⟨hnn, ?_⟩
    rw [hk.queues, hpos.groups_eq, ← hk.geometry]
    cases h with
    | pop h =>
      rw [pop] at h
      split at h
      · rename_i hlt
        exact Int32.lt_iff_toInt_lt.mp hlt
      · cases h
    | popOutOfBounds h =>
      exact absurd hnn (pop_outOfBounds (by rw [hk.geometry, hk.queues, hpos.groups_eq]) h)
  | write r pdata len =>
    obtain ⟨hr, hlt, hmem⟩ := hf.mem r pdata len rfl
    have hsize : (toSizeT len : Int) = len.toInt :=
      toSizeT_of_nonneg (Int32.le_iff_toInt_le.mp hnn)
    have hlt' : len.toInt < r.iSize.toInt := Int32.lt_iff_toInt_lt.mp hlt
    have hsub : r.stored len ⊆ r.region := Set.Ico_subset_Ico_right (by omega)
    refine ⟨hsub, ?_, fun b hb => ?_⟩
    · rw [hk.block]
      exact hregions.inside r (hk.allRefPts ▸ hr)
    · rw [hmem]
      exact memcpy_outside fun hin => hb (hsub hin)
  | pullBack r => exact hf.quiet nofun

theorem nonNeg_run (hpos : geo.Positive) (h₀ : Constructed geo s₀) (hregions : RegionsOk s₀)
    (h : ((system s₀).restrict NonNeg).Run tr s) :
    Kept geo s₀ tr s ∧ ((system s₀).restrict OwnBytes).Run tr s := by
  induction h with
  | init h =>
    obtain rfl : _ = s₀ := h
    exact ⟨.init h₀, .init rfl⟩
  | step _ hs ih =>
    obtain ⟨hk, hrun⟩ := ih
    exact ⟨hk.step hpos h₀ hregions hs.1 hs.2,
      .step hrun ⟨hs.1, hk.ownBytes hpos hregions hs.1 hs.2⟩⟩

/-- A negative length stores to more bytes than any item has. -/
theorem OwnBytes.nonNeg (h : OwnBytes s a s') : NonNeg s a s' := by
  cases a with
  | pop iGroupId r => exact h.1
  | write r pdata len =>
    refine Int32.le_iff_toInt_le.mpr (not_lt.mp fun hneg => ?_)
    have hsize := toSizeT_of_neg hneg
    have hitem := r.iSize.toInt_lt
    have hin : r.ptr + 2 ^ 31 ∈ r.region := h.1 ⟨by omega, by omega⟩
    have hlt := hin.2
    omega
  | pullBack r => trivial

end Runs

/-- The calls keep to the bytes of their items exactly if the size of the block does not overflow
and no argument is negative. -/
theorem items_never_overlap (available : Nat → Bool) (mem : Int → Byte) (geo : Geometry)
    (hpos : geo.Positive) (s₀ : RollFixBuffer) (hnew : construct available mem geo = .ok s₀)
    (tr : List Call) (s : RollFixBuffer) :
    (RegionsOk s₀ ∧ ((system s₀).restrict OwnBytes).Run tr s ∧ Intact s₀.allRefPts tr s) ↔
      (geo.Fits ∧ ((system s₀).restrict NonNeg).Run tr s) := by
  have h₀ := construct_eq_ok hnew
  constructor
  · rintro ⟨hregions, hrun, -⟩
    exact ⟨fits_of_regionsOk hpos h₀ hregions, hrun.restrict_mono fun _ _ _ _ hown => hown.nonNeg⟩
  · rintro ⟨hfit, hrun⟩
    have hregions := regionsOk_of_fits hpos h₀ hfit
    obtain ⟨hk, hown⟩ := nonNeg_run hpos h₀ hregions hrun
    exact ⟨hregions, hown, hk.intact⟩

theorem construct_ok (mem : Int → Byte) (geo : Geometry) (hsize : toSizeT geo.blockSize < 2 ^ 63) :
    ∃ s₀, construct (fun _ => true) mem geo = .ok s₀ := by
  rw [construct, malloc_ok hsize rfl, ← Geometry.groups,
    Geometry.createQueues_eq fun i hi => List.mem_range.mp hi]
  exact ⟨_, rfl⟩

/-- One byte written to the first of two items, and two bytes to the second. -/
theorem items_never_overlap_twoItems : ∃ s₀ tr s, tr.length = 2 ∧ s₀.allRefPts.length = 2 ∧
    RegionsOk s₀ ∧ ((system s₀).restrict OwnBytes).Run tr s ∧ Intact s₀.allRefPts tr s := by
  have hpos : Geometry.Positive ⟨1, 2, 3⟩ := ⟨by decide, by decide, by decide⟩
  obtain ⟨s₀, hnew⟩ := construct_ok (fun _ => 0) ⟨1, 2, 3⟩ (by decide)
  have hitems := construct_eq_ok hnew
  have hfirst := hitems.mem_allRefPts.mpr ⟨0, by decide, 0, by decide, rfl⟩
  have hsecond := hitems.mem_allRefPts.mpr ⟨0, by decide, 1, by decide, rfl⟩
  have h0 : ((system s₀).restrict NonNeg).Run [] s₀ := .init rfl
  have hwrite : ∀ {s : RollFixBuffer} {r : BufferItemRef} (pdata : Nat → Byte) (len : Int32),
      r ∈ s.allRefPts → len < r.iSize → ∃ s', Step s (.write r pdata len) s' ∧ s'.allRefPts = s.allRefPts :=
    fun _ _ hr hlen => ⟨_, .write hr (if_pos hlen), rfl⟩
  obtain ⟨s₁, hs₁, hrefs⟩ := hwrite (fun _ => 7) 1 hfirst (by decide)
  obtain ⟨s₂, hs₂, -⟩ := hwrite (s := s₁) (fun _ => 8) 2 (hrefs ▸ hsecond) (by decide)
  have h1 := h0.step ⟨hs₁, show (0 : Int32) ≤ 1 by decide⟩
  have h2 := h1.step ⟨hs₂, show (0 : Int32) ≤ 2 by decide⟩
  refine ⟨s₀, _, _, rfl, ?_,
    (items_never_overlap (fun _ => true) (fun _ => 0) _ hpos s₀ hnew _ _).mpr ⟨by decide, h2⟩⟩
  rw [hitems.allRefPts, hitems.queues]
  rfl

/-- `Write` accepts the length -1 and `Pop` the group -1, and a buffer of 65536 groups of 65536
items of one byte has an item outside its block. -/
theorem negative_length_accepted :
    (¬ ∀ mem s₀ a s', construct (fun _ => true) mem ⟨1, 1, 2⟩ = .ok s₀ → Step s₀ a s' →
      OwnBytes s₀ a s') ∧
    (∃ mem s₀, construct (fun _ => true) mem ⟨1, 1, 2⟩ = .ok s₀ ∧ s₀.pop (-1) = .outOfBounds) ∧
    ¬ ∀ mem s₀, construct (fun _ => true) mem ⟨65536, 65536, 1⟩ = .ok s₀ → RegionsOk s₀ := by
  refine ⟨?_, ?_, ?_⟩
  · intro hall
    obtain ⟨s₀, hnew⟩ := construct_ok (fun _ => 0) ⟨1, 1, 2⟩ (by decide)
    have hr := (construct_eq_ok hnew).mem_allRefPts.mpr ⟨0, by decide, 0, by decide, rfl⟩
    have hwrite : Step s₀ (.write _ (fun _ => 7) (-1)) _ := Step.write hr (if_pos (by decide))
    have hown := hall _ s₀ _ _ hnew hwrite
    have hnn : (0 : Int32) ≤ -1 := hown.nonNeg
    revert hnn
    decide
  · obtain ⟨s₀, hnew⟩ := construct_ok (fun _ => 0) ⟨1, 1, 2⟩ (by decide)
    refine ⟨_, s₀, hnew, ?_⟩
    rw [pop, (construct_eq_ok hnew).geometry, if_pos (by decide), if_neg (by decide)]
  · intro hall
    obtain ⟨s₀, hnew⟩ := construct_ok (fun _ => 0) ⟨65536, 65536, 1⟩ (by decide)
    have hfit := fits_of_regionsOk ⟨by decide, by decide, by decide⟩ (construct_eq_ok hnew)
      (hall _ s₀ hnew)
    revert hfit
    decide

end RollFixBuffer
end Utils
end Huicpp
