import Mathlib
import Huicpp.Cxx.Ownership
import Huicpp.Cxx.TransitionSystem

/-!
# Utils.Descriptors

`fd_in` and what stands on it: `HFileHandle`, `HTcpSocket` and `HUdpSock`. An object is its `m_fd`;
the kernel hands out the lowest free descriptor or fails, with -1. What it answers to each call is
an argument.

* `Careful`: nothing is put into an object that has a descriptor, and no socket is descriptor 0.
* `descriptors_closed_once`: in runs of such calls every descriptor is closed exactly once; the
  first other call ends this.
-/

namespace Huicpp
namespace Utils
namespace Descriptors

open Cxx

def invalid_fd : Int := -1

inductive Kind where
  | fileHandle
  | tcpSocket
  | udpSock
  deriving DecidableEq, Repr

/-- An object of one of the classes that derive from `fd_in`. -/
structure FdIn where
  kind : Kind
  m_fd : Int
  deriving DecidableEq, Repr

/-- The descriptors that were obtained for the objects. -/
abbrev Kernel := Resources Int

/-- A call that obtains a descriptor has answered `fd`. -/
def take (k : Kernel) (fd : Int) : Kernel := if 0 ≤ fd then k.obtain fd else k

/-- `dup2(_, fd)`: what `fd` was is closed. -/
def replace (k : Kernel) (fd : Int) : Kernel :=
  if fd ∈ k.opened then (k.close fd).obtain fd else k.obtain fd

namespace FdIn

def isInvalid (o : FdIn) : Bool := o.m_fd == invalid_fd

def setAsInvalid (o : FdIn) : FdIn := { o with m_fd := invalid_fd }

def setFd (o : FdIn) (fd : Int) : FdIn := { o with m_fd := fd }

/-- `Close()`. -/
def close (o : FdIn) (k : Kernel) : FdIn × Kernel :=
  if o.isInvalid then (o, k) else (o.setAsInvalid, k.close o.m_fd)

/-- `~fd_in()`. -/
def destroy (o : FdIn) (k : Kernel) : Kernel :=
  if o.m_fd ≠ invalid_fd then k.close o.m_fd else k

/-- `fd_in(fd_in&& other)`: the new object, and `other`. -/
def moveConstruct (other : FdIn) : FdIn × FdIn := (⟨other.kind, other.m_fd⟩, other.setAsInvalid)

/-- `HFileHandle(strFileName, ...)`, where `open` answers `fd`. -/
def openNew (k : Kernel) (fd : Int) : FdIn × Kernel := (⟨.fileHandle, fd⟩, take k fd)

/-- `Open(strFileName, ...)`. The code tells whether it succeeds. -/
def openFile (o : FdIn) (k : Kernel) (fd : Int) : Bool × FdIn × Kernel :=
  if 0 ≤ fd then (true, o.setFd fd, take k fd) else (false, o, take k fd)

/-- `Dup()`, where `dup` answers `fd`. -/
def dup (o : FdIn) (k : Kernel) (fd : Int) : FdIn × Kernel :=
  if o.isInvalid then (⟨.fileHandle, invalid_fd⟩, k)
  else if fd = invalid_fd then (⟨.fileHandle, invalid_fd⟩, k)
  else (⟨.fileHandle, fd⟩, take k fd)

/-- `Dup2(strFileName, ...)`, where `open` answers `fd`, and `dup2` succeeds or not. The descriptor
that was opened is closed at the end of the scope. -/
def dup2 (o : FdIn) (k : Kernel) (fd : Int) (dup2Ok : Bool) : Bool × Kernel :=
  if 0 ≤ fd then
    let k := take k fd
    let k := if dup2Ok then replace k o.m_fd else k
    (dup2Ok, k.close fd)
  else (false, take k fd)

/-- `Init()` of both kinds of sockets, where `socket` answers `sock`. -/
def init (o : FdIn) (k : Kernel) (sock : Int) : Bool × FdIn × Kernel :=
  let (o, k) := o.close k
  if 0 < sock then (true, o.setFd sock, take k sock) else (false, o, take k sock)

/-- `HIp4Addr::Accept(server, client)`, where `accept` answers `cb`. -/
def accept (client : FdIn) (k : Kernel) (cb : Int) : Bool × FdIn × Kernel :=
  if 0 < cb then (true, client.setFd cb, take k cb) else (false, client, take k cb)

end FdIn

/-! ## Programs -/

structure State (ι : Type) where
  objects : ι → Option FdIn
  kernel : Kernel

inductive Event (ι : Type) where
  | construct (x : ι) (kind : Kind)
  | openNew (x : ι) (fd : Int)
  | moveConstruct (x y : ι)
  | moveAssign (x y : ι)
  | openFile (x : ι) (fd : Int)
  | dup (x y : ι) (fd : Int)
  | dup2 (x : ι) (fd : Int) (dup2Ok : Bool)
  | init (x : ι) (sock : Int)
  | accept (server client : ι) (cb : Int)
  | close (x : ι)
  | destroy (x : ι)
  deriving DecidableEq, Repr

namespace State

/-- The descriptor of an object. -/
def descriptor (o : FdIn) : Option Int := if o.m_fd = invalid_fd then none else some o.m_fd

variable {ι : Type}

def owner (s : State ι) : ι → Option Int := (fun o => o.bind descriptor) ∘ s.objects

theorem owner_eq {s : State ι} {x : ι} {o : Option FdIn} (h : s.objects x = o) :
    s.owner x = o.bind descriptor := congrArg (fun o => o.bind descriptor) h

/-- The kernel fails, or answers the lowest number that neither the objects nor the rest of the
process use. -/
def Answers (others : List Int) (k : Kernel) (fd : Int) : Prop :=
  fd = -1 ∨ 0 ≤ fd ∧ fd ∉ others ∧ fd ∉ k.opened ∧
    ∀ m, 0 ≤ m → m < fd → m ∈ others ∨ m ∈ k.opened

variable [DecidableEq ι]

def set (s : State ι) (x : ι) (o : Option FdIn) (k : Kernel) : State ι :=
  ⟨Function.update s.objects x o, k⟩

/-- `x = std::move(y)`: `m_fd` is copied, and then `y` is made invalid. -/
def moveAssign (s : State ι) (x y : ι) (o p : FdIn) : State ι :=
  let s := s.set x (some (o.setFd p.m_fd)) s.kernel
  if x = y then s.set y (some (o.setFd p.m_fd).setAsInvalid) s.kernel
  else s.set y (some p.setAsInvalid) s.kernel

inductive Step (others : List Int) : State ι → Event ι → State ι → Prop where
  | construct (s : State ι) (x : ι) (kind : Kind) :
      s.objects x = none → Step others s (.construct x kind) (s.set x (some ⟨kind, -1⟩) s.kernel)
  | openNew (s : State ι) (x : ι) (fd : Int) :
      s.objects x = none → Answers others s.kernel fd →
      Step others s (.openNew x fd)
        (s.set x (some (FdIn.openNew s.kernel fd).1) (FdIn.openNew s.kernel fd).2)
  | moveConstruct (s : State ι) (x y : ι) (other : FdIn) :
      s.objects x = none → s.objects y = some other →
      Step others s (.moveConstruct x y)
        ((s.set y (some other.moveConstruct.2) s.kernel).set x (some other.moveConstruct.1) s.kernel)
  | moveAssign (s : State ι) (x y : ι) (o p : FdIn) :
      s.objects x = some o → s.objects y = some p → o.kind = p.kind →
      Step others s (.moveAssign x y) (s.moveAssign x y o p)
  | openFile (s : State ι) (x : ι) (fd : Int) (o : FdIn) :
      s.objects x = some o → o.kind = .fileHandle → Answers others s.kernel fd →
      Step others s (.openFile x fd)
        (s.set x (some (o.openFile s.kernel fd).2.1) (o.openFile s.kernel fd).2.2)
  | dup (s : State ι) (x y : ι) (fd : Int) (o : FdIn) :
      s.objects x = some o → o.kind = .fileHandle → s.objects y = none →
      Answers others s.kernel fd →
      Step others s (.dup x y fd) (s.set y (some (o.dup s.kernel fd).1) (o.dup s.kernel fd).2)
  | dup2 (s : State ι) (x : ι) (fd : Int) (dup2Ok : Bool) (o : FdIn) :
      s.objects x = some o → o.kind = .fileHandle → Answers others s.kernel fd →
      (dup2Ok = true → o.m_fd ≠ invalid_fd) →
      Step others s (.dup2 x fd dup2Ok) (s.set x (some o) (o.dup2 s.kernel fd dup2Ok).2)
  | init (s : State ι) (x : ι) (sock : Int) (o : FdIn) :
      s.objects x = some o → o.kind ≠ .fileHandle → Answers others (o.close s.kernel).2 sock →
      Step others s (.init x sock)
        (s.set x (some (o.init s.kernel sock).2.1) (o.init s.kernel sock).2.2)
  | accept (s : State ι) (server client : ι) (cb : Int) (o p : FdIn) :
      s.objects server = some o → o.kind = .tcpSocket → s.objects client = some p →
      p.kind = .tcpSocket → Answers others s.kernel cb → (o.m_fd = invalid_fd → cb = -1) →
      Step others s (.accept server client cb)
        (s.set client (some (p.accept s.kernel cb).2.1) (p.accept s.kernel cb).2.2)
  | close (s : State ι) (x : ι) (o : FdIn) :
      s.objects x = some o →
      Step others s (.close x) (s.set x (some (o.close s.kernel).1) (o.close s.kernel).2)
  | destroy (s : State ι) (x : ι) (o : FdIn) :
      s.objects x = some o → Step others s (.destroy x) (s.set x none (o.destroy s.kernel))

/-- The condition on a call: an object that takes a descriptor over has none, and a socket is not
given descriptor 0. -/
def Careful (s : State ι) (e : Event ι) (_ : State ι) : Prop :=
  match e with
  | .moveAssign x _ => s.owner x = none
  | .openFile x fd => 0 ≤ fd → s.owner x = none
  | .init _ sock => sock ≠ 0
  | .accept _ client cb => cb ≠ 0 ∧ (0 < cb → s.owner client = none)
  | _ => True

end State

/-- All programs, from no objects, in a process that uses the descriptors `others`. -/
def descriptors (ι : Type) [DecidableEq ι] (others : List Int) :
    TransitionSystem (State ι) (Event ι) where
  init s := s = ⟨fun _ => none, .start⟩
  step := State.Step others

/-! ## What each call does to the owners -/

namespace State

variable {others : List Int} {k : Kernel} {fd : Int}

theorem descriptor_invalid (kind : Kind) : descriptor ⟨kind, invalid_fd⟩ = none := if_pos rfl

theorem descriptor_of_nonneg {o : FdIn} (h : 0 ≤ o.m_fd) : descriptor o = some o.m_fd := by
  have hne : o.m_fd ≠ invalid_fd := by
    rw [invalid_fd]
    omega
  exact if_neg hne

theorem take_invalid (k : Kernel) : take k (-1) = k := rfl

theorem take_of_nonneg (k : Kernel) (h : 0 ≤ fd) : take k fd = k.obtain fd := if_pos h

theorem take_of_neg (k : Kernel) (h : ¬ 0 ≤ fd) : take k fd = k := if_neg h

theorem Owned.taken {ι : Type} [DecidableEq ι] {owner : ι → Option Int} {x : ι}
    (ho : Owned k owner) (hx : owner x = none) (ha : Answers others k fd) (kind : Kind) :
    Owned (take k fd) (Function.update owner x (descriptor ⟨kind, fd⟩)) := by
  rcases ha with rfl | ⟨hpos, _, hnew, _⟩
  · have hnone : descriptor ⟨kind, -1⟩ = none := descriptor_invalid kind
    rw [take_invalid, hnone, ← hx, Function.update_eq_self]
    exact ho
  · have hsome : descriptor ⟨kind, fd⟩ = some fd := descriptor_of_nonneg hpos
    rw [take_of_nonneg k hpos, hsome]
    exact ho.obtain hx hnew

theorem Owned.not_ignored {ι : Type} {owner : ι → Option Int} (ho : Owned k owner)
    (ha : Answers others k fd) (hpos : 0 ≤ fd) : ¬ Owned (take k fd) owner := by
  rcases ha with rfl | ⟨_, _, hnew, _⟩
  · cases hpos
  · rw [take_of_nonneg k hpos]
    refine Owned.not_of_lost List.mem_cons_self fun x hx => ?_
    exact hnew ((ho.mem fd).mpr ⟨x, hx⟩)

theorem Owned.not_overwritten {ι : Type} [DecidableEq ι] {owner : ι → Option Int} {x : ι} {h : Int}
    (ho : Owned k owner) (hx : owner x = some h) (ha : Answers others k fd) (hpos : 0 ≤ fd)
    (kind : Kind) : ¬ Owned (take k fd) (Function.update owner x (descriptor ⟨kind, fd⟩)) := by
  have hopen : h ∈ k.opened := (ho.mem h).mpr ⟨x, hx⟩
  have hsome : descriptor ⟨kind, fd⟩ = some fd := descriptor_of_nonneg hpos
  rcases ha with rfl | ⟨_, _, hnew, _⟩
  · cases hpos
  · rw [take_of_nonneg k hpos, hsome]
    refine Owned.not_of_lost (List.mem_cons_of_mem fd hopen) (ho.lost_of_update hx ?_)
    intro heq
    obtain rfl : fd = h := Option.some.inj heq
    exact hnew hopen

end State

namespace FdIn

theorem isInvalid_iff {o : FdIn} : o.isInvalid = true ↔ o.m_fd = invalid_fd := beq_iff_eq

theorem close_eq (o : FdIn) (k : Kernel) :
    o.close k = (o.setAsInvalid, k.release (State.descriptor o)) := by
  by_cases h : o.m_fd = invalid_fd
  · obtain ⟨kind, m_fd⟩ := o
    obtain rfl : m_fd = invalid_fd := h
    rfl
  · have hd : State.descriptor o = some o.m_fd := if_neg h
    rw [close, if_neg (mt isInvalid_iff.mp h), hd]
    rfl

theorem destroy_eq (o : FdIn) (k : Kernel) : o.destroy k = k.release (State.descriptor o) := by
  by_cases h : o.m_fd = invalid_fd
  · have hd : State.descriptor o = none := if_pos h
    rw [destroy, if_neg (not_not.mpr h), hd]
    rfl
  · have hd : State.descriptor o = some o.m_fd := if_neg h
    rw [destroy, if_pos h, hd]
    rfl

/-- The descriptor that `Dup2` opens for itself is closed: what remains is what `dup2` did. -/
theorem dup2_kernel {others : List Int} {o : FdIn} {k : Kernel} {fd : Int} {dup2Ok : Bool}
    (ha : State.Answers others k fd) (ho : dup2Ok = true → o.m_fd ∈ k.opened) :
    (o.dup2 k fd dup2Ok).2 = k ∨
      dup2Ok = true ∧ (o.dup2 k fd dup2Ok).2 = (k.close o.m_fd).obtain o.m_fd := by
  rcases ha with rfl | ⟨hpos, _, hnew, _⟩
  · exact .inl rfl
  · rw [dup2, if_pos hpos, State.take_of_nonneg k hpos]
    cases dup2Ok with
    | false => exact .inl (Resources.close_obtain k fd)
    | true =>
      have hopen : o.m_fd ∈ k.opened := ho rfl
      have hne : fd ≠ o.m_fd := fun h => hnew (h ▸ hopen)
      have hreplace : replace (k.obtain fd) o.m_fd = ((k.obtain fd).close o.m_fd).obtain o.m_fd :=
        if_pos (List.mem_cons_of_mem fd hopen)
      refine .inr ⟨rfl, ?_⟩
      show (replace (k.obtain fd) o.m_fd).close fd = (k.close o.m_fd).obtain o.m_fd
      rw [hreplace]
      exact Resources.reopen_within hopen hne

end FdIn

namespace State

variable {ι : Type} [DecidableEq ι] {others : List Int} {s s' : State ι} {x : ι}

theorem owner_set (s : State ι) (x : ι) (o : Option FdIn) (k : Kernel) :
    (s.set x o k).owner = Function.update s.owner x (o.bind descriptor) :=
  Function.comp_update _ _ _ _

theorem moveAssign_kernel (s : State ι) (x y : ι) (o p : FdIn) :
    (s.moveAssign x y o p).kernel = s.kernel := by
  rw [moveAssign]
  split <;> rfl

theorem owner_moveAssign (s : State ι) (x y : ι) (o p : FdIn) :
    (s.moveAssign x y o p).owner =
      Function.update (Function.update s.owner x (descriptor p)) y none := by
  rw [moveAssign]
  split
  · rw [owner_set, owner_set]
    rfl
  · rw [owner_set, owner_set]
    rfl

theorem Owned.same (ho : Owned s.kernel s.owner) {o : Option FdIn}
    (h : o.bind descriptor = s.owner x) : Owned s.kernel (s.set x o s.kernel).owner := by
  rw [owner_set, h, Function.update_eq_self]
  exact ho

theorem Owned.closed (ho : Owned s.kernel s.owner) {o : FdIn} (hx : s.objects x = some o)
    {p : Option FdIn} (hp : p.bind descriptor = none) :
    Owned (s.kernel.release (descriptor o))
      (s.set x p (s.kernel.release (descriptor o))).owner := by
  have hrel := ho.release x
  rw [owner_eq hx] at hrel
  rw [owner_set, hp]
  exact hrel

/-- Every careful call keeps the descriptors divided among the objects. -/
theorem Step.owned {e : Event ι} (h : Step others s e s') (hc : Careful s e s')
    (ho : Owned s.kernel s.owner) : Owned s'.kernel s'.owner := by
  cases h with
  | construct x kind hx =>
    refine Owned.same ho ?_
    rw [owner_eq hx]
    exact descriptor_invalid kind
  | openNew x fd hx ha =>
    show Owned (take s.kernel fd) (s.set x _ _).owner
    rw [owner_set]
    exact Owned.taken ho (owner_eq hx) ha .fileHandle
  | moveConstruct x y other hx hy =>
    have hmove := ho.move (owner_eq hx) (y := y)
    rw [owner_eq hy] at hmove
    show Owned s.kernel (State.set _ x _ _).owner
    rw [owner_set, owner_set]
    exact hmove
  | moveAssign x y o p hx hy _ =>
    have hnone : s.owner x = none := hc
    have hy' : descriptor p = s.owner y := (owner_eq hy).symm
    rw [moveAssign_kernel, owner_moveAssign, hy']
    by_cases hxy : x = y
    · subst hxy
      rw [Function.update_eq_self, ← hnone, Function.update_eq_self]
      exact ho
    · rw [Function.update_comm hxy]
      exact ho.move hnone
  | openFile x fd o hx _ ha =>
    by_cases hpos : 0 ≤ fd
    · rw [FdIn.openFile, if_pos hpos]
      show Owned (take s.kernel fd) (s.set x _ _).owner
      rw [owner_set]
      exact Owned.taken ho (hc hpos) ha o.kind
    · rw [FdIn.openFile, if_neg hpos, take_of_neg _ hpos]
      exact Owned.same ho (owner_eq hx).symm
  | dup x y fd o hx _ hy ha =>
    have hempty : Owned s.kernel (s.set y (some ⟨.fileHandle, invalid_fd⟩) s.kernel).owner := by
      refine Owned.same ho ?_
      rw [owner_eq hy]
      exact descriptor_invalid .fileHandle
    rw [FdIn.dup]
    split
    · exact hempty
    · split
      · exact hempty
      · show Owned (take s.kernel fd) (s.set y _ _).owner
        rw [owner_set]
        exact Owned.taken ho (owner_eq hy) ha .fileHandle
  | dup2 x fd dup2Ok o hx _ ha hvalid =>
    have hown : dup2Ok = true → s.owner x = some o.m_fd := by
      intro h
      rw [owner_eq hx]
      exact if_neg (hvalid h)
    rcases FdIn.dup2_kernel ha fun h => (ho.mem _).mpr ⟨x, hown h⟩ with hk | ⟨hok, hk⟩
    · rw [hk]
      exact Owned.same ho (owner_eq hx).symm
    · rw [hk]
      exact Owned.same (s := ⟨s.objects, _⟩) (ho.reopen (hown hok)) (owner_eq hx).symm
  | init x sock o hx _ ha =>
    have hclosed := ho.release x
    rw [FdIn.close_eq] at ha
    rw [owner_eq hx] at hclosed
    rw [FdIn.init, FdIn.close_eq]
    by_cases hpos : 0 < sock
    · have htaken := Owned.taken hclosed (Function.update_self x none s.owner) ha o.kind
      simp only [if_pos hpos]
      show Owned (take _ sock) (s.set x _ _).owner
      rw [owner_set, ← Function.update_idem]
      exact htaken
    · have hneg : ¬ 0 ≤ sock := by
        have hne : sock ≠ 0 := hc
        omega
      simp only [if_neg hpos, take_of_neg _ hneg]
      exact Owned.closed ho hx (descriptor_invalid o.kind)
  | accept server client cb o p _ _ hx _ ha _ =>
    by_cases hpos : 0 < cb
    · rw [FdIn.accept, if_pos hpos]
      show Owned (take s.kernel cb) (s.set client _ _).owner
      rw [owner_set]
      exact Owned.taken ho (hc.2 hpos) ha p.kind
    · have hneg : ¬ 0 ≤ cb := by
        have hne : cb ≠ 0 := hc.1
        omega
      rw [FdIn.accept, if_neg hpos, take_of_neg _ hneg]
      exact Owned.same ho (owner_eq hx).symm
  | close x o hx =>
    rw [FdIn.close_eq]
    exact Owned.closed ho hx (descriptor_invalid o.kind)
  | destroy x o hx =>
    rw [FdIn.destroy_eq]
    exact Owned.closed ho hx rfl

/-- A call that is not careful loses a descriptor. -/
theorem Step.not_owned {e : Event ι} (h : Step others s e s') (hc : ¬ Careful s e s')
    (ho : Owned s.kernel s.owner) : ¬ Owned s'.kernel s'.owner := by
  cases h with
  | construct | openNew | moveConstruct | dup | dup2 | close | destroy => exact absurd trivial hc
  | moveAssign x y o p hx hy _ =>
    obtain ⟨fd, hfd⟩ := Option.ne_none_iff_exists'.mp hc
    have hy' : descriptor p = s.owner y := (owner_eq hy).symm
    rw [moveAssign_kernel, owner_moveAssign, hy']
    refine Owned.not_of_lost ((ho.mem fd).mpr ⟨x, hfd⟩) fun z hz => ?_
    obtain ⟨hzy, hz⟩ := (update_apply_eq_iff_of_ne (Option.some_ne_none fd).symm).mp hz
    refine ho.lost_of_update hfd (fun hown => ?_) z hz
    -- then `y` is `x`, which has nothing any more
    obtain rfl : y = x := ho.unique y x fd hown hfd
    rw [Function.update_eq_self] at hz
    exact hzy (ho.unique z y fd hz hfd)
  | openFile x fd o hx _ ha =>
    obtain ⟨hpos, hown⟩ := Classical.not_imp.mp hc
    obtain ⟨old, hold⟩ := Option.ne_none_iff_exists'.mp hown
    rw [FdIn.openFile, if_pos hpos]
    show ¬ Owned (take s.kernel fd) (s.set x _ _).owner
    rw [owner_set]
    exact Owned.not_overwritten ho hold ha hpos o.kind
  | init x sock o hx _ ha =>
    obtain rfl : sock = 0 := not_not.mp hc
    have hclosed := Owned.closed ho hx (p := some o.setAsInvalid) (descriptor_invalid o.kind)
    rw [FdIn.close_eq] at ha
    rw [FdIn.init, FdIn.close_eq]
    exact Owned.not_ignored hclosed ha le_rfl
  | accept server client cb o p _ _ hx _ ha _ =>
    rcases not_and_or.mp hc with hzero | hown
    · obtain rfl : cb = 0 := not_not.mp hzero
      have hsame := Owned.same (o := some p) ho (owner_eq hx).symm
      exact Owned.not_ignored hsame ha le_rfl
    · obtain ⟨hpos, hown⟩ := Classical.not_imp.mp hown
      obtain ⟨old, hold⟩ := Option.ne_none_iff_exists'.mp hown
      rw [FdIn.accept, if_pos hpos]
      show ¬ Owned (take s.kernel cb) (s.set client _ _).owner
      rw [owner_set]
      exact Owned.not_overwritten ho hold ha hpos.le p.kind

end State

open State

/-- **Every descriptor is closed once.** In a run of careful calls nothing is closed that is not
open, no two objects have one descriptor, every open descriptor has its object, and when all objects
are destroyed every descriptor is closed. The first call that is not careful ends this. -/
theorem descriptors_closed_once {ι : Type} [DecidableEq ι] (others : List Int) (s : State ι)
    (h : ((descriptors ι others).restrict Careful).Reachable s) :
    Owned s.kernel s.owner ∧ ((∀ x, s.objects x = none) → s.kernel.opened = []) ∧
      ∀ e s', Step others s e s' → (Owned s'.kernel s'.owner ↔ Careful s e s') := by
  have ho : Owned s.kernel s.owner := by
    refine h.invariant (fun s => Owned s.kernel s.owner) ?_ ?_
    · rintro s rfl
      exact Owned.start
    · rintro s e s' ho ⟨hs, hc⟩
      exact hs.owned hc ho
  refine ⟨ho, fun hnone => ho.all_closed fun x => owner_eq (hnone x), fun e s' hs => ?_⟩
  constructor
  · intro ho'
    by_contra hc
    exact hs.not_owned hc ho ho'
  · intro hc
    exact hs.owned hc ho

/-- The kernel's first answer where the process uses the standard descriptors. -/
theorem answers_three : Answers [0, 1, 2] .start 3 := by
  refine .inr ⟨by decide, by decide, by decide, fun m hm h3 => .inl ?_⟩
  have hcases : m = 0 ∨ m = 1 ∨ m = 2 := by omega
  simpa using hcases

/-- One file, with the descriptor 3. -/
def oneFile : State Nat :=
  State.set ⟨fun _ => none, .start⟩ 0 (some ⟨.fileHandle, 3⟩) (Resources.start.obtain 3)

theorem step_oneFile : Step [0, 1, 2] ⟨fun _ => none, .start⟩ (.openNew 0 3) oneFile :=
  .openNew _ 0 3 rfl answers_three

/-- A file is opened. -/
theorem descriptors_closed_once_opened :
    Owned oneFile.kernel oneFile.owner ∧
      ((∀ x, oneFile.objects x = none) → oneFile.kernel.opened = []) ∧
      ∀ e s', Step [0, 1, 2] oneFile e s' → (Owned s'.kernel s'.owner ↔ Careful oneFile e s') :=
  descriptors_closed_once [0, 1, 2] oneFile
    ((TransitionSystem.Reachable.of_init rfl).next ⟨step_oneFile, trivial⟩)

/-- A second file is opened with the object, which is then destroyed: 3 is open, and nobody has
it. -/
theorem open_loses_descriptor :
    ∃ s : State Nat, (descriptors Nat [0, 1, 2]).Reachable s ∧ (∀ x, s.objects x = none) ∧
      s.kernel.opened = [3] := by
  let second : State Nat := oneFile.set 0 (some ⟨.fileHandle, 4⟩) (oneFile.kernel.obtain 4)
  have hanswer : Answers [0, 1, 2] oneFile.kernel 4 := by
    refine .inr ⟨by decide, by decide, by decide, fun m hm h4 => ?_⟩
    have hcases : (m = 0 ∨ m = 1 ∨ m = 2) ∨ m = 3 := by omega
    simpa [oneFile, State.set, Resources.start] using hcases
  have h1 : (descriptors Nat [0, 1, 2]).Reachable oneFile :=
    (TransitionSystem.Reachable.of_init rfl).next step_oneFile
  have h2 : (descriptors Nat [0, 1, 2]).Reachable second :=
    h1.next (.openFile oneFile 0 4 ⟨.fileHandle, 3⟩ rfl rfl hanswer)
  refine ⟨_, h2.next (.destroy second 0 ⟨.fileHandle, 4⟩ rfl), ?_, rfl⟩
  intro x
  by_cases hx : x = 0
  · rw [hx]
    rfl
  · have hset : ∀ (s : State Nat) o k, (s.set 0 o k).objects x = s.objects x :=
      fun s o k => Function.update_of_ne hx _ _
    rw [hset, hset, oneFile, hset]

end Descriptors
end Utils
end Huicpp
