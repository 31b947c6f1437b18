import Mathlib
import Huicpp.Cxx.Memory
import Huicpp.Cxx.Ownership
import Huicpp.Cxx.TransitionSystem

/-!
# Utils.Mappings

`HMmap`. What the kernel answers is an argument. The flags of every object are zero, which is no type of
a mapping, and `mmap` refuses them; so `Init()` maps nothing, and there is nothing to unmap.

* `file_iff`: with flags that `mmap` takes, the check of the file's length would let pass mappings that
  the file does not reach.
* `mapped_and_unmapped`: `Init()` never returns OK, an anonymous mapping is tried for sizes of `2 ^ 63`
  and more only, and a run is right as long as neither `UnInit()` nor the destructor is called.
-/

namespace Huicpp
namespace Utils
namespace Mappings

open Cxx

abbrev HPTR := BitVec 64

abbrev SYS_T := BitVec 32

def nullptr : HPTR := 0

def MAP_FAILED : HPTR := -1

def MAP_SHARED : SYS_T := 1
def MAP_PRIVATE : SYS_T := 2
def MAP_SHARED_VALIDATE : SYS_T := 3
def MAP_TYPE : SYS_T := 15

inductive RET_T where
  | OK
  | INVL_PARA
  | SYS_FAILED
  deriving DecidableEq, Repr

/-- The mappings that were made for the object. -/
abbrev Kernel := Resources HPTR

/-- The flags have a type of mapping. -/
def HasMapType (flags : SYS_T) : Prop :=
  flags &&& MAP_TYPE = MAP_SHARED ∨ flags &&& MAP_TYPE = MAP_PRIVATE ∨
    flags &&& MAP_TYPE = MAP_SHARED_VALIDATE

instance (flags : SYS_T) : Decidable (HasMapType flags) := inferInstanceAs (Decidable (_ ∨ _ ∨ _))

/-- `mmap`: flags without a type are refused, else the kernel answers. -/
def mmap (_prot flags : SYS_T) (answer : HPTR) : HPTR :=
  if HasMapType flags then answer else MAP_FAILED

/-- There is a mapping at `ptr`, unless `mmap` has failed. -/
def Kernel.mapped (k : Kernel) (ptr : HPTR) : Kernel := if ptr = MAP_FAILED then k else k.obtain ptr

/-- `lseek(fd, off, SEEK_END)` in a file of `flen` bytes -/
def lseek (fd : Int) (flen : Nat) (off : Int) : Int := if fd < 0 then -1 else flen + off

structure HMmap where
  m_strFileName : List Byte
  m_len : UInt64
  m_off : Int64
  m_prot : SYS_T
  m_flags : SYS_T
  m_named : Bool
  m_ptr : HPTR
  deriving DecidableEq, Repr

/-- The answers to `open` and `mmap`, and the length of the file. -/
structure Answered where
  fd : Int
  flen : Nat
  ptr : HPTR
  deriving DecidableEq, Repr

namespace HMmap

def DEFAULT_PROT : SYS_T := 0
def DEFAULT_FLAGS : SYS_T := 0

/-- Both constructors; without a file the name is empty. -/
def new (strFileName : List Byte) (size : UInt64) (off : Int64) : HMmap :=
  ⟨strFileName, size, off, DEFAULT_PROT, DEFAULT_FLAGS, true, nullptr⟩

/-- `Init()`, from the check of the file's length on. -/
def mapFile (o : HMmap) (k : Kernel) (fd : Int) (flen : Nat) (answer : HPTR) : RET_T × HMmap × Kernel :=
  if ¬ o.m_len.toInt64.toInt ≤ lseek fd flen o.m_off.toInt then (.INVL_PARA, o, k)
  else
    let o := { o with m_ptr := mmap o.m_prot o.m_flags answer }
    let k := Kernel.mapped k o.m_ptr
    if o.m_ptr = MAP_FAILED then (.SYS_FAILED, o, k) else (.OK, o, k)

def init (o : HMmap) (k : Kernel) (a : Answered) : RET_T × HMmap × Kernel :=
  let o := { o with m_named := false }
  if o.m_strFileName ≠ [] then
    if ¬ 0 < a.fd then (.INVL_PARA, o, k)
    else HMmap.mapFile { o with m_named := true } k a.fd a.flen a.ptr
  else o.mapFile k (-1) a.flen a.ptr

def unInit (o : HMmap) (k : Kernel) : HMmap × Kernel :=
  if o.m_ptr ≠ nullptr ∨ o.m_ptr ≠ MAP_FAILED then
    ({ o with m_ptr := nullptr }, k.close o.m_ptr)
  else (o, k)

/-- The destructor -/
def destroy (o : HMmap) (k : Kernel) : Kernel := (o.unInit k).2

end HMmap

/-! ## Sequences of calls -/

structure State where
  object : Option HMmap
  kernel : Kernel
  deriving DecidableEq, Repr

inductive Event where
  | init (a : Answered)
  | unInit
  | destroy
  deriving DecidableEq, Repr

inductive Step : State → Event → State → Prop where
  | init (o : HMmap) (k : Kernel) (a : Answered) :
      Step ⟨some o, k⟩ (.init a) ⟨some (o.init k a).2.1, (o.init k a).2.2⟩
  | unInit (o : HMmap) (k : Kernel) :
      Step ⟨some o, k⟩ .unInit ⟨some (o.unInit k).1, (o.unInit k).2⟩
  | destroy (o : HMmap) (k : Kernel) : Step ⟨some o, k⟩ .destroy ⟨none, o.destroy k⟩

/-- Every sequence of calls on an object, from its construction on -/
def calls : TransitionSystem State Event where
  init s := ∃ strFileName size off, s = ⟨some (.new strFileName size off), .start⟩
  step := Step

/-! ## What each call does -/

variable {o : HMmap} {k : Kernel} {s s' : State} {e : Event}

theorem toInt64_le_neg_one_iff (n : UInt64) : n.toInt64.toInt ≤ -1 ↔ 2 ^ 63 ≤ n.toNat := by
  have hlt : n.toNat < 2 ^ 64 := n.toNat_lt
  have hcast : n.toInt64.toInt =
      if 2 * n.toNat < 2 ^ 64 then (n.toNat : Int) else n.toNat - (2 ^ 64 : Nat) :=
    BitVec.toInt_eq_toNat_cond n.toBitVec
  rw [hcast]
  split <;> omega

namespace HMmap

theorem mapFile_ret (o : HMmap) (k : Kernel) (fd : Int) (flen : Nat) (answer : HPTR) :
    (o.mapFile k fd flen answer).1 =
      if ¬ o.m_len.toInt64.toInt ≤ lseek fd flen o.m_off.toInt then .INVL_PARA
      else if mmap o.m_prot o.m_flags answer = MAP_FAILED then .SYS_FAILED else .OK := by
  rw [mapFile]
  split
  · rfl
  · dsimp only
    split <;> rfl

theorem lseek_open {fd : Int} (hfd : 0 < fd) (flen : Nat) (off : Int) :
    lseek fd flen off = flen + off := if_neg (by omega)

/-- Which file mappings lie in their file: those of flags that are refused, those the file reaches to the
end of, and those for which it is so short that the check refuses them. -/
theorem file_iff (hname : o.m_strFileName ≠ []) (k : Kernel) (flen : Nat) :
    (∀ fd ptr, (o.init k ⟨fd, flen, ptr⟩).1 = .OK → o.m_off.toInt + o.m_len.toNat ≤ flen) ↔
      ¬ HasMapType o.m_flags ∨ o.m_off.toInt + o.m_len.toNat ≤ flen ∨
        flen + o.m_off.toInt < o.m_len.toInt64.toInt := by
  have hret : ∀ fd ptr, (o.init k ⟨fd, flen, ptr⟩).1 = .OK ↔
      0 < fd ∧ o.m_len.toInt64.toInt ≤ flen + o.m_off.toInt ∧
        mmap o.m_prot o.m_flags ptr ≠ MAP_FAILED := by
    intro fd ptr
    rw [init]
    dsimp only
    rw [if_pos hname]
    by_cases hfd : 0 < fd
    · rw [if_neg (not_not.mpr hfd), mapFile_ret, lseek_open hfd]
      split_ifs <;> simp_all
    · rw [if_pos hfd]
      simp [hfd]
  constructor
  · intro hall
    by_contra hno
    obtain ⟨htype, hno⟩ := not_or.mp hno
    obtain ⟨hin, hlen⟩ := not_or.mp hno
    have hmmap : mmap o.m_prot o.m_flags 4096 ≠ MAP_FAILED := by
      rw [mmap, if_pos (not_not.mp htype)]
      decide
    exact hin (hall 3 4096 ((hret 3 4096).mpr ⟨by decide, not_lt.mp hlen, hmmap⟩))
  · rintro (htype | hin | hlen) fd ptr hok
    · exact absurd (if_neg htype) ((hret fd ptr).mp hok).2.2
    · exact hin
    · exact absurd ((hret fd ptr).mp hok).2.1 (not_le.mpr hlen)

theorem anonymous_iff (hname : o.m_strFileName = []) (k : Kernel) (a : Answered) :
    (o.init k a).1 ≠ .INVL_PARA ↔ 2 ^ 63 ≤ o.m_len.toNat := by
  rw [init]
  dsimp only
  rw [if_neg (not_not.mpr hname), mapFile_ret, ← toInt64_le_neg_one_iff]
  show (if ¬ o.m_len.toInt64.toInt ≤ -1 then _ else _) ≠ _ ↔ _
  by_cases hsize : o.m_len.toInt64.toInt ≤ -1
  · rw [if_neg (not_not.mpr hsize)]
    refine iff_of_true ?_ hsize
    split <;> decide
  · rw [if_pos hsize]
    exact iff_of_false (fun h => h rfl) hsize

/-- What a call of `Init()` leaves of an object whose flags are refused. -/
theorem mapFile_refused (hflags : ¬ HasMapType o.m_flags) (k : Kernel) (fd : Int) (flen : Nat)
    (answer : HPTR) :
    (o.mapFile k fd flen answer).1 ≠ .OK ∧ (o.mapFile k fd flen answer).2.2 = k ∧
      (o.mapFile k fd flen answer).2.1.m_flags = o.m_flags := by
  have hmmap : mmap o.m_prot o.m_flags answer = MAP_FAILED := if_neg hflags
  rw [mapFile]
  by_cases hlen : o.m_len.toInt64.toInt ≤ lseek fd flen o.m_off.toInt
  · rw [if_neg (not_not.mpr hlen)]
    dsimp only
    rw [if_pos hmmap, hmmap, Kernel.mapped, if_pos rfl]
    exact ⟨nofun, rfl, rfl⟩
  · rw [if_pos hlen]
    exact ⟨nofun, rfl, rfl⟩

theorem init_refused (hflags : ¬ HasMapType o.m_flags) (k : Kernel) (a : Answered) :
    (o.init k a).1 ≠ .OK ∧ (o.init k a).2.2 = k ∧ (o.init k a).2.1.m_flags = o.m_flags := by
  rw [init]
  dsimp only
  by_cases hname : o.m_strFileName = []
  · rw [if_neg (not_not.mpr hname)]
    exact mapFile_refused (o := { o with m_named := false }) hflags k (-1) a.flen a.ptr
  · rw [if_pos hname]
    by_cases hfd : 0 < a.fd
    · rw [if_neg (not_not.mpr hfd)]
      exact mapFile_refused (o := { o with m_named := true }) hflags k a.fd a.flen a.ptr
    · rw [if_pos hfd]
      exact ⟨nofun, rfl, rfl⟩

theorem unInit_eq (o : HMmap) (k : Kernel) :
    o.unInit k = ({ o with m_ptr := nullptr }, k.close o.m_ptr) := by
  refine if_pos ?_
  by_cases hnull : o.m_ptr = nullptr
  · exact .inr (by rw [hnull]; decide)
  · exact .inl hnull

end HMmap

/-! ## Runs -/

theorem not_hasMapType_default : ¬ HasMapType HMmap.DEFAULT_FLAGS := by decide

theorem close_of_nil (h : k.opened = []) (ptr : HPTR) :
    k.close ptr = { k with wrongClose := true } := by
  rw [Resources.close, h, if_neg List.not_mem_nil]

/-- Nothing was mapped, and nothing is unmapped by a call of `Init()`. -/
structure RunInv (tr : List Event) (s : State) : Prop where
  flags : ∀ o, s.object = some o → o.m_flags = HMmap.DEFAULT_FLAGS
  opened : s.kernel.opened = []
  right : s.kernel.wrongClose = false ↔ ∀ e ∈ tr, ∃ a, e = .init a

theorem RunInv.unmap {tr : List Event} (hs : RunInv tr ⟨some o, k⟩) (ptr : HPTR) (e : Event)
    (he : ∀ a, e ≠ .init a) : (k.close ptr).opened = [] ∧
      ((k.close ptr).wrongClose = false ↔ ∀ e' ∈ tr ++ [e], ∃ a, e' = .init a) := by
  rw [close_of_nil hs.opened]
  refine ⟨hs.opened, iff_of_false nofun fun hall => ?_⟩
  obtain ⟨a, ha⟩ := hall e (List.mem_append_right tr (List.mem_singleton_self e))
  exact he a ha

theorem RunInv.step {tr : List Event} (hs : RunInv tr s) (h : Step s e s') :
    RunInv (tr ++ [e]) s' := by
  cases h with
  | init o k a =>
    have hflags := hs.flags o rfl
    obtain ⟨-, hk, hsame⟩ := o.init_refused (by rw [hflags]; exact not_hasMapType_default) k a
    rw [hk]
    refine ⟨fun p hp => ?_, hs.opened, hs.right.trans ⟨fun hall e' he' => ?_, fun hall e' he' => ?_⟩⟩
    · obtain rfl : (o.init k a).2.1 = p := Option.some.inj hp
      exact hsame.trans hflags
    · rcases List.mem_append.mp he' with he' | he'
      · exact hall e' he'
      · exact ⟨a, List.mem_singleton.mp he'⟩
    · exact hall e' (List.mem_append_left _ he')
  | unInit o k =>
    rw [HMmap.unInit_eq]
    obtain ⟨hopened, hright⟩ := hs.unmap o.m_ptr .unInit (by intro a ha; cases ha)
    refine ⟨fun p hp => ?_, hopened, hright⟩
    obtain rfl : { o with m_ptr := nullptr } = p := Option.some.inj hp
    exact hs.flags o rfl
  | destroy o k =>
    rw [HMmap.destroy, HMmap.unInit_eq]
    obtain ⟨hopened, hright⟩ := hs.unmap o.m_ptr .destroy (by intro a ha; cases ha)
    refine ⟨fun p hp => ?_, hopened, hright⟩
    cases hp

theorem run_inv {tr : List Event} (h : calls.Run tr s) : RunInv tr s := by
  refine h.invariant RunInv ?_ fun tr s e s' => RunInv.step
  rintro s ⟨strFileName, size, off, rfl⟩
  refine ⟨fun o ho => ?_, rfl, iff_of_true rfl fun e he => absurd he List.not_mem_nil⟩
  obtain rfl : HMmap.new strFileName size off = o := Option.some.inj ho
  rfl

/-- **Mappings of files and memory.** In every run `Init()` returns OK for no file, an anonymous mapping
is tried only for sizes of `2 ^ 63` and more, nothing is ever mapped, and nothing else is unmapped as
long as all calls are calls of `Init()`. -/
theorem mapped_and_unmapped {tr : List Event} (h : calls.Run tr s) :
    (∀ o, s.object = some o → ∀ a, (o.init s.kernel a).1 ≠ .OK) ∧
    (∀ o, s.object = some o → o.m_strFileName = [] → ∀ a,
      ((o.init s.kernel a).1 ≠ .INVL_PARA ↔ 2 ^ 63 ≤ o.m_len.toNat)) ∧
    s.kernel.opened = [] ∧ (s.kernel.wrongClose = false ↔ ∀ e ∈ tr, ∃ a, e = .init a) := by
  have hs := run_inv h
  refine ⟨fun o ho a => ?_, fun o _ hname a => HMmap.anonymous_iff hname s.kernel a, hs.opened, hs.right⟩
  exact (o.init_refused (by rw [hs.flags o ho]; exact not_hasMapType_default) s.kernel a).1

/-- The mapping of a file of one page was refused, and then unmapped. -/
def refusedPage : State := ⟨some ⟨[charByte 'f'], 4096, 0, 0, 0, true, nullptr⟩, ⟨[], true⟩⟩

theorem mapped_and_unmapped_page :
    (∀ o, refusedPage.object = some o → ∀ a, (o.init refusedPage.kernel a).1 ≠ .OK) ∧
    (∀ o, refusedPage.object = some o → o.m_strFileName = [] → ∀ a,
      ((o.init refusedPage.kernel a).1 ≠ .INVL_PARA ↔ 2 ^ 63 ≤ o.m_len.toNat)) ∧
    refusedPage.kernel.opened = [] ∧ (refusedPage.kernel.wrongClose = false ↔
      ∀ e ∈ [Event.init ⟨3, 4096, 4096⟩, .unInit], ∃ a, e = .init a) := by
  have hnew : calls.Run [] ⟨some (.new [charByte 'f'] 4096 0), .start⟩ := .init ⟨_, _, _, rfl⟩
  have hinit : calls.Run [.init ⟨3, 4096, 4096⟩]
      ⟨some ⟨[charByte 'f'], 4096, 0, 0, 0, true, MAP_FAILED⟩, .start⟩ :=
    hnew.step (.init (.new [charByte 'f'] 4096 0) .start ⟨3, 4096, 4096⟩)
  exact mapped_and_unmapped (hinit.step (.unInit _ _))

/-- An anonymous page is not tried, and an object that was never initialised unmaps the null pointer. -/
theorem mapping_promises_broken :
    (¬ ∀ (size : UInt64) (off : Int64) (k : Kernel) (a : Answered),
      ((HMmap.new [] size off).init k a).1 ≠ .INVL_PARA) ∧
    ¬ ∀ s, calls.Reachable s → s.kernel.wrongClose = false := by
  refine ⟨fun hall => ?_, fun hall => ?_⟩
  · exact hall 4096 0 .start ⟨-1, 0, MAP_FAILED⟩ (by decide)
  · have hnew : calls.Reachable ⟨some (.new [] 4096 0), .start⟩ := .of_init ⟨_, _, _, rfl⟩
    have hright := hall _ (hnew.next (.destroy (.new [] 4096 0) .start))
    exact absurd hright (by decide)

end Mappings
end Utils
end Huicpp
