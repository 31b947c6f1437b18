import Mathlib
import Huicpp.Cxx.TransitionSystem
import Huicpp.Ipc.InitCalls

/-!
# Ipc.Attachments

`HShareMemory` with the addresses that its segments are attached at. What the kernel answers to each
call is an argument; the kernel keeps which addresses are attached through the object, and which calls
of `shmat` and `shmdt` there were.

* `Careful`: every `shmat` succeeds, none is made while `m_shm_ptr` still has to be detached, and
  nothing is detached a second time.
* `attachments_balance`: in runs of such calls the attachments balance; another call ends this.
-/

namespace Huicpp
namespace Ipc
namespace Attachments

open Cxx

abbrev Address := BitVec 64

def nullptr : Address := 0

/-- What `shmat` returns when it fails. -/
def failed : Address := -1

/-- Addresses that are attached through the object, those that `shmat` gave to it, and those that it
called `shmdt` with. -/
structure Kernel where
  attached : List Address
  given : List Address
  detaches : List Address
  /-- `shmdt` was called with an address that was not attached. -/
  astray : Bool
  deriving DecidableEq, Repr

namespace Kernel

def start : Kernel := ⟨[], [], [], false⟩

/-- With `SHM_REMAP` the address may be one that is attached already. -/
def shmat (k : Kernel) (ptr : Address) : Kernel :=
  if ptr = failed then k
  else { k with attached := k.attached.insert ptr, given := ptr :: k.given }

def shmdt (k : Kernel) (ptr : Address) (ok : Bool) : Kernel where
  attached := if ok then k.attached.erase ptr else k.attached
  given := k.given
  detaches := ptr :: k.detaches
  astray := k.astray || ptr ∉ k.attached

/-- `shmdt` was called with the address as often as `shmat` gave it. -/
def Settled (k : Kernel) (ptr : Address) : Prop := k.given.count ptr = k.detaches.count ptr

/-- `shmat` gave the address once more. -/
def Pending (k : Kernel) (ptr : Address) : Prop := k.given.count ptr = k.detaches.count ptr + 1

instance (k : Kernel) (ptr : Address) : Decidable (k.Pending ptr) := inferInstanceAs (Decidable (_ = _))

end Kernel

structure HShareMemory where
  m_id : Int
  m_shm_ptr : Address
  deriving DecidableEq, Repr

/-- The answers to the calls of `create` or `open`. -/
structure Answered where
  shmid : Int
  eexist : Bool
  ptr : Address
  shmdtOk : Bool
  deriving DecidableEq, Repr

namespace HShareMemory

def new : HShareMemory := ⟨IpcBasic.DEF_ID_VAL, nullptr⟩

def hasInited (o : HShareMemory) : Bool := o.m_id != IpcBasic.DEF_ID_VAL

def setInvalid (o : HShareMemory) : HShareMemory := { o with m_id := IpcBasic.DEF_ID_VAL }

def dettach (o : HShareMemory) (k : Kernel) (shmdtOk : Bool) : RET_T × HShareMemory × Kernel :=
  if ¬ o.hasInited then (.SRC_ERR, o, k)
  else if o.m_shm_ptr ≠ nullptr then
    let k := k.shmdt o.m_shm_ptr shmdtOk
    if shmdtOk then (.OK, { o with m_shm_ptr := nullptr }, k) else (.SYS_FAILED, o, k)
  else (.OK, o, k)

/-- `shmctl` does nothing to the attachments, and its answer is ignored. -/
def remove (o : HShareMemory) (k : Kernel) (shmdtOk : Bool) : RET_T × HShareMemory × Kernel :=
  if ¬ o.hasInited then (.ERR_STATUS, o, k)
  else
    let (_, o, k) := o.dettach k shmdtOk
    (.OK, o.setInvalid, k)

/-- The end of `create` and of `open`: a segment of the id is there. -/
def attachNew (o : HShareMemory) (k : Kernel) (a : Answered) : RET_T × HShareMemory × Kernel :=
  let o := { o with m_id := a.shmid }
  let k := k.shmat a.ptr
  let o := { o with m_shm_ptr := a.ptr }
  if o.m_shm_ptr = failed then
    let (_, o, k) := o.remove k a.shmdtOk
    (.SYS_FAILED, o, k)
  else (.OK, o, k)

def create (o : HShareMemory) (k : Kernel) (a : Answered) : RET_T × HShareMemory × Kernel :=
  if o.hasInited then (.OK, o, k)
  else if a.shmid < 0 then (if a.eexist then .SYS_FAILED else .SRC_ERR, o, k)
  else o.attachNew k a

def open' (o : HShareMemory) (k : Kernel) (a : Answered) : RET_T × HShareMemory × Kernel :=
  if o.hasInited then (.OK, o, k)
  else if ¬ a.shmid > 0 then (.SYS_FAILED, o, k)
  else o.attachNew k a

/-- `Init()`, with the answers to `create` and to `open`. -/
def init (o : HShareMemory) (k : Kernel) (a b : Answered) : RET_T × HShareMemory × Kernel :=
  let (create_ret, o, k) := o.create k a
  if create_ret = .SYS_FAILED then (.SYS_FAILED, o, k)
  else if create_ret ≠ .OK then
    let (open_ret, o, k) := o.open' k b
    if open_ret ≠ .OK then (open_ret, o, k) else (.OK, o, k)
  else (.OK, o, k)

def attach (o : HShareMemory) (k : Kernel) (ptr : Address) : RET_T × HShareMemory × Kernel :=
  if ¬ o.hasInited then (.SRC_ERR, o, k)
  else
    let k := k.shmat ptr
    let o := { o with m_shm_ptr := ptr }
    if o.m_shm_ptr = failed then (.SYS_FAILED, o, k) else (.OK, o, k)

/-- The destructor -/
def destroy (o : HShareMemory) (k : Kernel) (shmdtOk : Bool) : Kernel := (o.dettach k shmdtOk).2.2

end HShareMemory

/-! ## Sequences of calls -/

structure State where
  object : Option HShareMemory
  kernel : Kernel
  deriving DecidableEq, Repr

inductive Event where
  | init (a b : Answered)
  | attach (ptr : Address)
  | dettach (shmdtOk : Bool)
  | remove (shmdtOk : Bool)
  | destroy (shmdtOk : Bool)
  deriving DecidableEq, Repr

/-- The state after a call. -/
def after (r : RET_T × HShareMemory × Kernel) : State := ⟨some r.2.1, r.2.2⟩

inductive Step : State → Event → State → Prop where
  | init (o : HShareMemory) (k : Kernel) (a b : Answered) :
      a.ptr ≠ nullptr → b.ptr ≠ nullptr → Step ⟨some o, k⟩ (.init a b) (after (o.init k a b))
  | attach (o : HShareMemory) (k : Kernel) (ptr : Address) :
      ptr ≠ nullptr → Step ⟨some o, k⟩ (.attach ptr) (after (o.attach k ptr))
  | dettach (o : HShareMemory) (k : Kernel) (shmdtOk : Bool) :
      Step ⟨some o, k⟩ (.dettach shmdtOk) (after (o.dettach k shmdtOk))
  | remove (o : HShareMemory) (k : Kernel) (shmdtOk : Bool) :
      Step ⟨some o, k⟩ (.remove shmdtOk) (after (o.remove k shmdtOk))
  | destroy (o : HShareMemory) (k : Kernel) (shmdtOk : Bool) :
      Step ⟨some o, k⟩ (.destroy shmdtOk) ⟨none, o.destroy k shmdtOk⟩

/-- Every sequence of calls on an object, from its construction on -/
def calls : TransitionSystem State Event where
  init s := s = ⟨some .new, .start⟩
  step := Step

/-- The address is null or attached, only attached addresses were detached, and after the destructor
every address was given as often as it was detached. -/
structure Balanced (s : State) : Prop where
  pointer : ∀ o, s.object = some o → o.m_shm_ptr = nullptr ∨ o.m_shm_ptr ∈ s.kernel.attached
  detached : s.kernel.astray = false
  matched : s.object = none → ∀ ptr, s.kernel.Settled ptr

/-- The condition on a call: each `shmat` that it makes succeeds, and the pointer that it stores to
has nothing to detach; and what it detaches, it detaches for the first time. -/
def Careful (s : State) (e : Event) (_ : State) : Prop :=
  ∀ o, s.object = some o →
    match e with
    | .init a b => o.hasInited = false →
        (0 ≤ a.shmid → a.ptr ≠ failed) ∧
          (a.shmid < 0 → a.eexist = false → 0 < b.shmid → b.ptr ≠ failed)
    | .attach ptr => o.hasInited = true → ptr ≠ failed ∧ ¬ s.kernel.Pending o.m_shm_ptr
    | .dettach _ | .remove _ | .destroy _ =>
        o.hasInited = true → o.m_shm_ptr ≠ nullptr → s.kernel.Pending o.m_shm_ptr

/-! ## What each call keeps -/

variable {o : HShareMemory} {k : Kernel} {ptr : Address} {ok : Bool} {s s' : State} {e : Event}

namespace Kernel

theorem Settled.not_pending (h : k.Settled ptr) : ¬ k.Pending ptr := by
  intro hp
  rw [Settled] at h
  rw [Pending] at hp
  omega

theorem detaches_shmdt (k : Kernel) (ptr : Address) (ok : Bool) :
    (k.shmdt ptr ok).detaches.count ptr = k.detaches.count ptr + 1 := List.count_cons_self

theorem detaches_shmdt_of_ne {p : Address} (hne : p ≠ ptr) :
    (k.shmdt ptr ok).detaches.count p = k.detaches.count p := List.count_cons_of_ne hne.symm

theorem given_shmat (hne : ptr ≠ failed) : (k.shmat ptr).given = ptr :: k.given := by
  rw [shmat, if_neg hne]

theorem detaches_shmat (k : Kernel) (ptr : Address) : (k.shmat ptr).detaches = k.detaches := by
  rw [shmat]
  split <;> rfl

/-- What was pending is settled by its `shmdt`. -/
theorem Pending.shmdt (h : k.Pending ptr) (ok : Bool) : (k.shmdt ptr ok).Settled ptr :=
  h.trans (detaches_shmdt k ptr ok).symm

theorem Settled.shmdt_of_ne {p : Address} (h : k.Settled p) (hne : p ≠ ptr) :
    (k.shmdt ptr ok).Settled p := h.trans (detaches_shmdt_of_ne hne).symm

end Kernel

namespace HShareMemory

theorem ne_DEF_ID_VAL {id : Int} (h : 0 ≤ id) : id ≠ IpcBasic.DEF_ID_VAL := by
  rw [IpcBasic.DEF_ID_VAL]
  omega

theorem dettach_of_not_inited (hid : o.hasInited = false) : o.dettach k ok = (.SRC_ERR, o, k) :=
  if_pos (Bool.eq_false_iff.mp hid)

theorem dettach_of_null (hnull : o.m_shm_ptr = nullptr) : (o.dettach k ok).2 = (o, k) := by
  rw [dettach, if_neg (not_not.mpr hnull)]
  split <;> rfl

theorem dettach_ok (hid : o.hasInited = true) (hne : o.m_shm_ptr ≠ nullptr) :
    (o.dettach k true).2 = ({ o with m_shm_ptr := nullptr }, k.shmdt o.m_shm_ptr true) := by
  rw [dettach, if_neg (not_not.mpr hid), if_pos hne]
  rfl

theorem dettach_failed (hid : o.hasInited = true) (hne : o.m_shm_ptr ≠ nullptr) :
    (o.dettach k false).2 = (o, k.shmdt o.m_shm_ptr false) := by
  rw [dettach, if_neg (not_not.mpr hid), if_pos hne]
  rfl

theorem dettach_kernel (hid : o.hasInited = true) (hne : o.m_shm_ptr ≠ nullptr) :
    (o.dettach k ok).2.2 = k.shmdt o.m_shm_ptr ok := by
  cases ok with
  | false => rw [dettach_failed hid hne]
  | true => rw [dettach_ok hid hne]

theorem remove_of_not_inited (hid : o.hasInited = false) : o.remove k ok = (.ERR_STATUS, o, k) :=
  if_pos (Bool.eq_false_iff.mp hid)

theorem remove_of_inited (hid : o.hasInited = true) : (o.remove k ok).2 =
    ((o.dettach k ok).2.1.setInvalid, (o.dettach k ok).2.2) := by
  rw [remove, if_neg (not_not.mpr hid)]

theorem attach_of_inited (hid : o.hasInited = true) :
    (o.attach k ptr).2 = ({ o with m_shm_ptr := ptr }, k.shmat ptr) := by
  rw [attach, if_neg (not_not.mpr hid)]
  dsimp only
  split <;> rfl

theorem attachNew_ok {a : Answered} (hne : a.ptr ≠ failed) :
    (o.attachNew k a).2 = (⟨a.shmid, a.ptr⟩, k.shmat a.ptr) := by
  rw [attachNew]
  dsimp only
  rw [if_neg hne]

theorem attachNew_ret {a : Answered} :
    (o.attachNew k a).1 = if a.ptr = failed then .SYS_FAILED else .OK := by
  rw [attachNew]
  dsimp only
  split <;> rfl

theorem init_of_inited {a b : Answered} (hid : o.hasInited = true) :
    o.init k a b = (.OK, o, k) := by
  rw [init, create, if_pos hid]
  rfl

theorem init_of_create {a b : Answered} (hid : o.hasInited = false) (ha : 0 ≤ a.shmid) :
    (o.init k a b).2 = (o.attachNew k a).2 := by
  have hcreate : o.create k a = o.attachNew k a := by
    rw [create, if_neg (Bool.eq_false_iff.mp hid), if_neg (not_lt.mpr ha)]
  rw [init, hcreate]
  dsimp only
  rw [attachNew_ret]
  by_cases hfail : a.ptr = failed
  · rw [if_pos hfail, if_pos rfl]
  · rw [if_neg hfail, if_neg (by decide), if_neg (not_not.mpr rfl)]

theorem init_of_open {a b : Answered} (hid : o.hasInited = false) (ha : a.shmid < 0)
    (he : a.eexist = false) (hb : 0 < b.shmid) : (o.init k a b).2 = (o.attachNew k b).2 := by
  have hno : ¬ o.hasInited = true := Bool.eq_false_iff.mp hid
  have hcreate : o.create k a = (.SRC_ERR, o, k) := by
    rw [create, if_neg hno, if_pos ha, he]
    rfl
  have hopen : o.open' k b = o.attachNew k b := by
    rw [open', if_neg hno, if_neg (not_not.mpr hb)]
  rw [init, hcreate]
  dsimp only
  rw [if_neg (by decide), if_pos (by decide), hopen]
  split <;> rfl

theorem init_without_id {a b : Answered} (hid : o.hasInited = false) (ha : a.shmid < 0)
    (hb : a.eexist = true ∨ ¬ 0 < b.shmid) : (o.init k a b).2 = (o, k) := by
  have hno : ¬ o.hasInited = true := Bool.eq_false_iff.mp hid
  rw [init, create, if_neg hno, if_pos ha]
  cases he : a.eexist with
  | true => rfl
  | false =>
    have hb : ¬ 0 < b.shmid := hb.resolve_left (Bool.eq_false_iff.mp he)
    dsimp only
    rw [if_neg Bool.false_ne_true, if_neg (by decide), if_pos (by decide), open', if_neg hno,
      if_pos hb]
    rfl

theorem attachNew_astray {a : Answered} (hptr : a.ptr = failed) (hshmid : 0 ≤ a.shmid)
    (hproper : failed ∉ k.attached) : (o.attachNew k a).2.2.astray = true := by
  have hinit : (HShareMemory.mk a.shmid a.ptr).hasInited = true :=
    bne_iff_ne.mpr (ne_DEF_ID_VAL hshmid)
  have hne : (HShareMemory.mk a.shmid a.ptr).m_shm_ptr ≠ nullptr := by
    show a.ptr ≠ nullptr
    rw [hptr]
    decide
  rw [attachNew]
  dsimp only
  rw [if_pos hptr]
  show (HShareMemory.remove ⟨a.shmid, a.ptr⟩ (k.shmat a.ptr) a.shmdtOk).2.2.astray = true
  rw [remove_of_inited hinit, dettach_kernel hinit hne]
  show ((k.shmat a.ptr).astray || decide (a.ptr ∉ (k.shmat a.ptr).attached)) = true
  rw [Kernel.shmat, if_pos hptr, hptr, decide_eq_true hproper, Bool.or_true]

end HShareMemory

/-- All addresses are settled, but for the own one, which the destructor would detach. -/
structure Kept (o : HShareMemory) (k : Kernel) : Prop where
  pointer : o.m_shm_ptr = nullptr ∨ o.m_shm_ptr ∈ k.attached
  right : k.astray = false
  proper : failed ∉ k.attached
  others : ∀ ptr, ptr ≠ o.m_shm_ptr → k.Settled ptr
  own : k.Settled o.m_shm_ptr ∨
    k.Pending o.m_shm_ptr ∧ o.m_shm_ptr ≠ nullptr ∧ o.hasInited = true

namespace Kept

theorem all_settled (h : Kept o k) (hn : ¬ k.Pending o.m_shm_ptr) (p : Address) : k.Settled p := by
  by_cases hp : p = o.m_shm_ptr
  · rw [hp]
    exact h.own.resolve_right fun hown => hn hown.1
  · exact h.others p hp

theorem settled_of_not_inited (h : Kept o k) (hid : o.hasInited = false) (p : Address) :
    k.Settled p := by
  refine h.all_settled (fun hp => ?_) p
  rcases h.own with hs | ⟨-, -, hinit⟩
  · exact hs.not_pending hp
  · rw [hid] at hinit
    cases hinit

theorem settled_of_null (h : Kept o k) (hnull : o.m_shm_ptr = nullptr) (p : Address) :
    k.Settled p := by
  refine h.all_settled (fun hp => ?_) p
  rcases h.own with hs | ⟨-, hne, -⟩
  · exact hs.not_pending hp
  · exact hne hnull

theorem new : Kept .new .start where
  pointer := .inl rfl
  right := rfl
  proper := List.not_mem_nil
  others _ _ := rfl
  own := .inl rfl

theorem setInvalid (h : Kept o k) (hs : ∀ p, k.Settled p) : Kept o.setInvalid k :=
  ⟨h.pointer, h.right, h.proper, h.others, .inl (hs _)⟩

theorem shmat (h : Kept o k) (hs : ∀ p, k.Settled p) (hptr : ptr ≠ nullptr) (hne : ptr ≠ failed)
    {id : Int} (hid : id ≠ IpcBasic.DEF_ID_VAL) : Kept ⟨id, ptr⟩ (k.shmat ptr) := by
  rw [Kernel.shmat, if_neg hne]
  refine ⟨.inr (List.mem_insert_self ..), h.right, ?_, fun p hp => ?_, .inr ⟨?_, hptr, ?_⟩⟩
  · intro hmem
    rcases List.mem_insert_iff.mp hmem with heq | hmem
    · exact hne heq.symm
    · exact h.proper hmem
  · have hcount : (ptr :: k.given).count p = k.given.count p := List.count_cons_of_ne (Ne.symm hp)
    exact hcount.trans (hs p)
  · have hcount : (ptr :: k.given).count ptr = k.given.count ptr + 1 := List.count_cons_self
    exact hcount.trans (congrArg (· + 1) (hs ptr))
  · exact bne_iff_ne.mpr hid

theorem dettach (h : Kept o k)
    (hc : o.hasInited = true → o.m_shm_ptr ≠ nullptr → k.Pending o.m_shm_ptr) (ok : Bool) :
    Kept (o.dettach k ok).2.1 (o.dettach k ok).2.2 ∧ ∀ p, (o.dettach k ok).2.2.Settled p := by
  by_cases hid : o.hasInited = true
  · by_cases hnull : o.m_shm_ptr = nullptr
    · rw [HShareMemory.dettach_of_null hnull]
      exact ⟨h, h.settled_of_null hnull⟩
    · have hmem : o.m_shm_ptr ∈ k.attached := h.pointer.resolve_left hnull
      have hpending := hc hid hnull
      have hright : (k.shmdt o.m_shm_ptr ok).astray = false := by
        rw [Kernel.shmdt, h.right, Bool.false_or, decide_eq_false (not_not.mpr hmem)]
      have hs : ∀ p, (k.shmdt o.m_shm_ptr ok).Settled p := by
        intro p
        by_cases hp : p = o.m_shm_ptr
        · rw [hp]
          exact hpending.shmdt ok
        · exact (h.others p hp).shmdt_of_ne hp
      rw [HShareMemory.dettach_kernel hid hnull]
      refine ⟨?_, hs⟩
      cases ok with
      | true =>
        rw [HShareMemory.dettach_ok hid hnull]
        exact ⟨.inl rfl, hright, fun hf => h.proper (List.mem_of_mem_erase hf), fun p _ => hs p,
          .inl (hs _)⟩
      | false =>
        rw [HShareMemory.dettach_failed hid hnull]
        exact ⟨.inr hmem, hright, h.proper, fun p _ => hs p, .inl (hs _)⟩
  · have hid := Bool.eq_false_of_not_eq_true hid
    rw [HShareMemory.dettach_of_not_inited hid]
    exact ⟨h, h.settled_of_not_inited hid⟩

theorem remove (h : Kept o k)
    (hc : o.hasInited = true → o.m_shm_ptr ≠ nullptr → k.Pending o.m_shm_ptr) (ok : Bool) :
    Kept (o.remove k ok).2.1 (o.remove k ok).2.2 := by
  by_cases hid : o.hasInited = true
  · obtain ⟨hkept, hs⟩ := h.dettach hc ok
    rw [HShareMemory.remove_of_inited hid]
    exact hkept.setInvalid hs
  · rw [HShareMemory.remove_of_not_inited (Bool.eq_false_of_not_eq_true hid)]
    exact h

theorem attachNew (h : Kept o k) (hid : o.hasInited = false) {a : Answered} (hnull : a.ptr ≠ nullptr)
    (hne : a.ptr ≠ failed) (hshmid : 0 ≤ a.shmid) :
    Kept (o.attachNew k a).2.1 (o.attachNew k a).2.2 := by
  rw [HShareMemory.attachNew_ok hne]
  exact h.shmat (h.settled_of_not_inited hid) hnull hne (HShareMemory.ne_DEF_ID_VAL hshmid)

theorem init (h : Kept o k) {a b : Answered} (ha : a.ptr ≠ nullptr) (hb : b.ptr ≠ nullptr)
    (hc : o.hasInited = false → (0 ≤ a.shmid → a.ptr ≠ failed) ∧
      (a.shmid < 0 → a.eexist = false → 0 < b.shmid → b.ptr ≠ failed)) :
    Kept (o.init k a b).2.1 (o.init k a b).2.2 := by
  cases hid : o.hasInited with
  | true =>
    rw [HShareMemory.init_of_inited hid]
    exact h
  | false =>
    obtain ⟨hcreate, hopen⟩ := hc hid
    by_cases hshmid : 0 ≤ a.shmid
    · rw [HShareMemory.init_of_create hid hshmid]
      exact h.attachNew hid ha (hcreate hshmid) hshmid
    · have hneg : a.shmid < 0 := not_le.mp hshmid
      by_cases hnone : a.eexist = true ∨ ¬ 0 < b.shmid
      · rw [HShareMemory.init_without_id hid hneg hnone]
        exact h
      · obtain ⟨he, hpos⟩ := not_or.mp hnone
        have he := Bool.eq_false_of_not_eq_true he
        have hpos := not_not.mp hpos
        rw [HShareMemory.init_of_open hid hneg he hpos]
        exact h.attachNew hid hb (hopen hneg he hpos) hpos.le

theorem attach (h : Kept o k) (hnull : ptr ≠ nullptr)
    (hc : o.hasInited = true → ptr ≠ failed ∧ ¬ k.Pending o.m_shm_ptr) :
    Kept (o.attach k ptr).2.1 (o.attach k ptr).2.2 := by
  cases hid : o.hasInited with
  | true =>
    obtain ⟨hne, hpending⟩ := hc hid
    rw [HShareMemory.attach_of_inited hid]
    exact h.shmat (h.all_settled hpending) hnull hne (bne_iff_ne.mp hid)
  | false =>
    rw [HShareMemory.attach, if_pos (Bool.eq_false_iff.mp hid)]
    exact h

end Kept

/-- The invariant. Behind the destructor everything is settled. -/
def Inv (s : State) : Prop :=
  match s.object with
  | some o => Kept o s.kernel
  | none => s.kernel.astray = false ∧ ∀ p, s.kernel.Settled p

theorem Inv.balanced (h : Inv s) : Balanced s := by
  obtain ⟨object, k⟩ := s
  cases object with
  | none => exact ⟨fun o ho => (by cases ho), h.1, fun _ => h.2⟩
  | some o =>
    have h : Kept o k := h
    refine ⟨fun p hp => ?_, h.right, fun hnone => (by cases hnone)⟩
    obtain rfl : o = p := Option.some.inj hp
    exact h.pointer

theorem Step.inv (h : Step s e s') (hc : Careful s e s') (hi : Inv s) : Inv s' := by
  cases h with
  | init o k a b ha hb => exact Kept.init hi ha hb (hc o rfl)
  | attach o k ptr hptr => exact Kept.attach hi hptr (hc o rfl)
  | dettach o k ok => exact (Kept.dettach hi (hc o rfl) ok).1
  | remove o k ok => exact Kept.remove hi (hc o rfl) ok
  | destroy o k ok =>
    obtain ⟨hkept, hs⟩ := Kept.dettach hi (hc o rfl) ok
    exact ⟨hkept.right, hs⟩

/-! ## Calls that are not careful -/

theorem count_destroy (o : HShareMemory) (k : Kernel) (ok : Bool) (p : Address) :
    (o.destroy k ok).given = k.given ∧
      ((o.destroy k ok).detaches.count p = k.detaches.count p ∨
        p = o.m_shm_ptr ∧ (o.destroy k ok).detaches.count p = k.detaches.count p + 1) := by
  rw [HShareMemory.destroy]
  by_cases hid : o.hasInited = true
  · by_cases hnull : o.m_shm_ptr = nullptr
    · rw [HShareMemory.dettach_of_null hnull]
      exact ⟨rfl, .inl rfl⟩
    · rw [HShareMemory.dettach_kernel hid hnull]
      refine ⟨rfl, ?_⟩
      by_cases hp : p = o.m_shm_ptr
      · rw [hp]
        exact .inr ⟨rfl, Kernel.detaches_shmdt k _ ok⟩
      · exact .inl (Kernel.detaches_shmdt_of_ne hp)
  · rw [HShareMemory.dettach_of_not_inited (Bool.eq_false_of_not_eq_true hid)]
    exact ⟨rfl, .inl rfl⟩

theorem not_balanced_of_excess (ptr : Address) (h : k.given.count ptr < k.detaches.count ptr)
    (ok : Bool) : ¬ Balanced ⟨none, o.destroy k ok⟩ := by
  intro hb
  have hs : (o.destroy k ok).given.count ptr = (o.destroy k ok).detaches.count ptr :=
    hb.matched rfl ptr
  obtain ⟨hgiven, hcount⟩ := count_destroy o k ok ptr
  rw [hgiven] at hs
  omega

theorem not_balanced_of_lost {id : Int} (hp : k.Pending ptr) (q : Address) (hq : q ≠ failed)
    (ok : Bool) : ¬ Balanced ⟨none, HShareMemory.destroy ⟨id, q⟩ (k.shmat q) ok⟩ := by
  intro hb
  have hs : (HShareMemory.destroy ⟨id, q⟩ (k.shmat q) ok).given.count ptr =
    (HShareMemory.destroy ⟨id, q⟩ (k.shmat q) ok).detaches.count ptr := hb.matched rfl ptr
  obtain ⟨hgiven, hcount⟩ := count_destroy ⟨id, q⟩ (k.shmat q) ok ptr
  rw [Kernel.detaches_shmat] at hcount
  rw [hgiven, Kernel.given_shmat hq, List.count_cons] at hs
  rw [Kernel.Pending] at hp
  by_cases hqp : q = ptr
  · rw [if_pos (by simpa using hqp)] at hs
    omega
  · have hcount : _ := hcount.resolve_right fun h => hqp h.1.symm
    omega

theorem excess_of_dettach (h : Kept o k)
    (hbad : ¬ (o.hasInited = true → o.m_shm_ptr ≠ nullptr → k.Pending o.m_shm_ptr)) (ok : Bool) :
    o.hasInited = true ∧ (o.dettach k ok).2.2.given.count o.m_shm_ptr <
      (o.dettach k ok).2.2.detaches.count o.m_shm_ptr := by
  obtain ⟨hid, hbad⟩ := Classical.not_imp.mp hbad
  obtain ⟨hne, hn⟩ := Classical.not_imp.mp hbad
  have hs : k.given.count o.m_shm_ptr = k.detaches.count o.m_shm_ptr := h.all_settled hn _
  have hcount := Kernel.detaches_shmdt k o.m_shm_ptr ok
  have hgiven : (k.shmdt o.m_shm_ptr ok).given = k.given := rfl
  rw [HShareMemory.dettach_kernel hid hne, hgiven]
  exact ⟨hid, by omega⟩

theorem Step.unbalanced (h : Step s e s') (hc : ¬ Careful s e s') (hi : Inv s) :
    ∃ s'', (s'' = s' ∨ Step s' (.destroy true) s'') ∧ ¬ Balanced s'' := by
  obtain ⟨p, hp, hbad⟩ := not_forall₂.mp hc
  cases h with
  | init o k a b ha hb =>
    obtain rfl : o = p := Option.some.inj hp
    have hkept : Kept o k := hi
    obtain ⟨hid, hbad⟩ := Classical.not_imp.mp hbad
    refine ⟨_, .inl rfl, fun hbal => ?_⟩
    have hright : (o.init k a b).2.2.astray = false := hbal.detached
    rcases not_and_or.mp hbad with hcreate | hopen
    · obtain ⟨hshmid, hfail⟩ := Classical.not_imp.mp hcreate
      rw [HShareMemory.init_of_create hid hshmid,
        HShareMemory.attachNew_astray (not_not.mp hfail) hshmid hkept.proper] at hright
      cases hright
    · obtain ⟨hneg, hopen⟩ := Classical.not_imp.mp hopen
      obtain ⟨he, hopen⟩ := Classical.not_imp.mp hopen
      obtain ⟨hpos, hfail⟩ := Classical.not_imp.mp hopen
      rw [HShareMemory.init_of_open hid hneg he hpos,
        HShareMemory.attachNew_astray (not_not.mp hfail) hpos.le hkept.proper] at hright
      cases hright
  | attach o k ptr hptr =>
    obtain rfl : o = p := Option.some.inj hp
    have hkept : Kept o k := hi
    obtain ⟨hid, hbad⟩ := Classical.not_imp.mp hbad
    rw [after, HShareMemory.attach_of_inited hid]
    by_cases hfail : ptr = failed
    · -- the failure value is the pointer now
      refine ⟨_, .inl rfl, fun hbal => ?_⟩
      rcases hbal.pointer _ rfl with hnull | hmem
      · exact hptr hnull
      · have hmem : ptr ∈ (k.shmat ptr).attached := hmem
        rw [Kernel.shmat, if_pos hfail, hfail] at hmem
        exact hkept.proper hmem
    · have hpending : k.Pending o.m_shm_ptr := not_not.mp fun h => hbad ⟨hfail, h⟩
      exact ⟨_, .inr (.destroy _ _ true), not_balanced_of_lost hpending ptr hfail true⟩
  | dettach o k ok =>
    obtain rfl : o = p := Option.some.inj hp
    obtain ⟨-, hexcess⟩ := excess_of_dettach hi hbad ok
    exact ⟨_, .inr (.destroy _ _ true), not_balanced_of_excess o.m_shm_ptr hexcess true⟩
  | remove o k ok =>
    obtain rfl : o = p := Option.some.inj hp
    obtain ⟨hid, hexcess⟩ := excess_of_dettach hi hbad ok
    refine ⟨_, .inr (.destroy _ _ true), not_balanced_of_excess o.m_shm_ptr ?_ true⟩
    rw [HShareMemory.remove_of_inited hid]
    exact hexcess
  | destroy o k ok =>
    obtain rfl : o = p := Option.some.inj hp
    obtain ⟨-, hexcess⟩ := excess_of_dettach hi hbad ok
    refine ⟨_, .inl rfl, fun hbal => ?_⟩
    have hs : (o.destroy k ok).Settled o.m_shm_ptr := hbal.matched rfl _
    exact absurd hs hexcess.ne

/-- **The attachments balance.** In a run of careful calls the pointer is null or attached, only what is
attached is detached, and behind the destructor everything was detached once. A call that is not careful
ends this, at once or when the object is destroyed. -/
theorem attachments_balance (h : (calls.restrict Careful).Reachable s) :
    Balanced s ∧ ∀ e s', Step s e s' → ¬ Careful s e s' →
      ∃ s'', (s'' = s' ∨ Step s' (.destroy true) s'') ∧ ¬ Balanced s'' := by
  have hi : Inv s := by
    refine h.invariant Inv ?_ ?_
    · rintro s rfl
      exact Kept.new
    · rintro s e s' hi ⟨hstep, hc⟩
      exact hstep.inv hc hi
  exact ⟨hi.balanced, fun e s' hstep hc => hstep.unbalanced hc hi⟩

/-- `Init()` attaches segment 1 at address 4096. This is detached, another address is attached, and the
destructor detaches that. -/
theorem attachments_balance_twice : ∃ s, s.object = none ∧ s.kernel.given = [8192, 4096] ∧
    s.kernel.detaches = [8192, 4096] ∧ s.kernel.attached = [] ∧ Balanced s := by
  have h0 : (calls.restrict Careful).Reachable ⟨some .new, .start⟩ := .of_init rfl
  have h1 := h0.next ⟨.init .new .start ⟨1, false, 4096, false⟩ ⟨1, false, 4096, false⟩ (by decide)
    (by decide), by
      rintro o ho -
      exact ⟨fun _ => by decide, fun _ _ _ => by decide⟩⟩
  have h2 := h1.next ⟨.dettach ⟨1, 4096⟩ _ true, by
    rintro _ ⟨⟩ _ _
    decide⟩
  have h3 := h2.next ⟨.attach ⟨1, nullptr⟩ _ 8192 (by decide), by
    rintro _ ⟨⟩ _
    decide⟩
  have h4 := h3.next ⟨.destroy ⟨1, 8192⟩ _ true, by
    rintro _ ⟨⟩ _ _
    decide⟩
  exact ⟨_, rfl, rfl, rfl, rfl, (attachments_balance h4).1⟩

/-- `Init()` finds a segment, and `shmat` fails: the failure value is detached. -/
theorem attach_failure_detached : ¬ ∀ s, calls.Reachable s → Balanced s := by
  intro hall
  have hstep : Step ⟨some .new, .start⟩ _ _ :=
    .init .new .start ⟨1, false, failed, false⟩ ⟨1, false, failed, false⟩ (by decide) (by decide)
  have hbal := hall _ ((TransitionSystem.Reachable.of_init rfl).next hstep)
  exact absurd hbal.detached (by decide)

end Attachments
end Ipc
end Huicpp
