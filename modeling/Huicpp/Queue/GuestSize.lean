import Mathlib
import Huicpp.Queue.Calls
import Huicpp.Queue.Fifo

/-!
# Queue.GuestSize

The size queries. `GuestSize` loads both indices, in either order, while the other thread may move
one of them, and takes their difference through an `int`.

* `Inv`: what the indices are, and what a `GuestSize` in progress has seen of them.
* `guestSize_eq_iff`: when the difference is the number of elements.
* `sizesExact_iff`: the queries are exact exactly if the size of the queue is an `int`, or one more.
-/

namespace Huicpp
namespace Queue

open Cxx

namespace HSingleFastQueue

variable {α : Type}

/-- The result of `GuestSize`, from the indices that it loaded. `res` is an `int`, `size` and the
indices are `unsigned`, and what is returned is a `size_t`. -/
def guestSize (size writeIndex readIndex : Nat) : Nat :=
  let res : Int := ((writeIndex : Int) - readIndex).bmod (2 ^ 32)
  let res : Int := if res < 0 then (res + size).bmod (2 ^ 32) else res
  (res % 2 ^ 64).toNat

def capacity (size : Nat) : Nat := size - 1

def isEmpty (q : HSingleFastQueue α) : Bool := q.readIndex == q.writeIndex

def isFull (size : Nat) (q : HSingleFastQueue α) : Bool :=
  !(nextPos size q.writeIndex != q.readIndex)

end HSingleFastQueue

open HSingleFastQueue

/-- Where `GuestSize` is. -/
inductive GuestPc where
  | idle
  | haveWriteIndex (writeIndex : Nat)
  | haveReadIndex (readIndex : Nat)
  | computed (res : Nat)
  deriving DecidableEq, Repr

/-- Where `popFront` is. -/
inductive PopPc where
  | idle
  | loadWriteIndex (currentGetPos : Nat)
  | destroy (currentGetPos nextPos : Nat)
  | storeReadIndex (nextPos : Nat)
  deriving DecidableEq, Repr

/-- A queue whose producer also calls `GuestSize` and whose consumer also calls `GuestSize` and
`popFront`. `popped` counts the calls of `popFront`. -/
structure Shared (α : Type) where
  queue : HSingleFastQueue α
  producerGuest : GuestPc
  consumerGuest : GuestPc
  pop : PopPc
  popped : Nat

namespace Shared

variable {α : Type}

def init : Shared α where
  queue := .init
  producerGuest := .idle
  consumerGuest := .idle
  pop := .idle
  popped := 0

/-- One step of `GuestSize` on a queue with these indices. -/
inductive GuestStep (size writeIndex readIndex : Nat) : GuestPc → GuestPc → Prop where
  | writeFirst : GuestStep size writeIndex readIndex .idle (.haveWriteIndex writeIndex)
  | readFirst : GuestStep size writeIndex readIndex .idle (.haveReadIndex readIndex)
  | thenRead (w : Nat) :
      GuestStep size writeIndex readIndex (.haveWriteIndex w) (.computed (guestSize size w readIndex))
  | thenWrite (r : Nat) :
      GuestStep size writeIndex readIndex (.haveReadIndex r) (.computed (guestSize size writeIndex r))
  | finish (res : Nat) : GuestStep size writeIndex readIndex (.computed res) .idle

/-- One step of `popFront`. Its assertion holds. -/
inductive PopStep (size : Nat) : Shared α → Shared α → Prop where
  | loadReadIndex (s : Shared α) :
      s.pop = .idle → PopStep size s { s with pop := .loadWriteIndex s.queue.readIndex }
  | notEmpty (s : Shared α) (current : Nat) :
      s.pop = .loadWriteIndex current → current ≠ s.queue.writeIndex →
      PopStep size s { s with pop := .destroy current (nextPos size current) }
  | destroy (s : Shared α) (current next : Nat) :
      s.pop = .destroy current next →
      PopStep size s { s with
        queue := { s.queue with data := Function.update s.queue.data current .raw }
        pop := .storeReadIndex next }
  | storeReadIndex (s : Shared α) (next : Nat) :
      s.pop = .storeReadIndex next →
      PopStep size s { s with
        queue := { s.queue with readIndex := next }
        pop := .idle
        popped := s.popped + 1 }

/-- A thread makes a step of the call it is in, or begins one. -/
inductive Step (size : Nat) : Shared α → Thread → Shared α → Prop where
  | push (s : Shared α) (q : HSingleFastQueue α) :
      s.producerGuest = .idle → PushStep size s.queue q →
      Step size s .producer { s with queue := q }
  | producerGuest (s : Shared α) (g : GuestPc) :
      s.queue.producer = .idle →
      GuestStep size s.queue.writeIndex s.queue.readIndex s.producerGuest g →
      Step size s .producer { s with producerGuest := g }
  | get (s : Shared α) (q : HSingleFastQueue α) :
      s.consumerGuest = .idle → s.pop = .idle → GetStep size s.queue q →
      Step size s .consumer { s with queue := q }
  | consumerGuest (s : Shared α) (g : GuestPc) :
      s.queue.consumer = .idle → s.pop = .idle →
      GuestStep size s.queue.writeIndex s.queue.readIndex s.consumerGuest g →
      Step size s .consumer { s with consumerGuest := g }
  | pop (s s' : Shared α) :
      s.queue.consumer = .idle → s.consumerGuest = .idle → PopStep size s s' →
      Step size s .consumer s'

def system (size : Nat) : TransitionSystem (Shared α) Thread where
  init s := s = init
  step := Step size

/-- The elements taken. -/
def taken (s : Shared α) : Nat := s.queue.obtained.length + s.popped

/-- The elements that are waiting. -/
def pending (s : Shared α) : Nat := s.queue.accepted.length - s.taken

/-- No call is in progress. -/
structure Quiescent (s : Shared α) : Prop where
  producer : s.queue.producer = .idle
  consumer : s.queue.consumer = .idle
  producerGuest : s.producerGuest = .idle
  consumerGuest : s.consumerGuest = .idle
  pop : s.pop = .idle

/-- The queries of a queue that no thread is working on. -/
structure Exact (size : Nat) (s : Shared α) : Prop where
  count : guestSize size s.queue.writeIndex s.queue.readIndex = s.pending
  bound : s.pending ≤ capacity size
  empty : s.queue.isEmpty = true ↔ guestSize size s.queue.writeIndex s.queue.readIndex = 0
  getFails : ∀ storage, s.queue.isEmpty = true ↔ (Owned.get size ⟨s.queue, storage⟩).2 = false
  full : s.queue.isFull size = true ↔
    guestSize size s.queue.writeIndex s.queue.readIndex = capacity size
  pushFails : ∀ v storage, s.queue.isFull size = true ↔
    (Owned.push size v ⟨s.queue, storage⟩).2 = false

/-- A `GuestSize` that is about to return. -/
structure OneSided (s : Shared α) : Prop where
  consumer : ∀ n, s.consumerGuest = .computed n → n ≤ s.pending
  producer : ∀ n, s.producerGuest = .computed n → s.pending ≤ n

end Shared

/-- The queries of a queue of this size are right, for elements of any type. -/
def SizesExact (size : Nat) : Prop :=
  ∀ (α : Type) (s : Shared α), (Shared.system size).Reachable s →
    (s.Quiescent → s.Exact size) ∧ s.OneSided

/-! ## The difference of the indices -/

namespace HSingleFastQueue

variable {size : Nat}

theorem slot_add_cases {C n : Nat} (hn : n < size) :
    (C % size + n < size ∧ (C + n) % size = C % size + n) ∨
      (size ≤ C % size + n ∧ (C + n) % size + size = C % size + n) := by
  have hC := Nat.mod_lt C (by omega : 0 < size)
  rcases Nat.lt_or_ge (C % size + n) size with hlt | hge
  · refine .inl ⟨hlt, ?_⟩
    rw [Nat.add_mod, Nat.mod_eq_of_lt hn, Nat.mod_eq_of_lt hlt]
  · refine .inr ⟨hge, ?_⟩
    rw [Nat.add_mod, Nat.mod_eq_of_lt hn, Nat.mod_eq_sub_mod hge, Nat.mod_eq_of_lt (by omega)]
    omega

theorem bmod_spec (x : Int) : ∃ k : Int, x = x.bmod (2 ^ 32) + 2 ^ 32 * k ∧
    -2 ^ 31 ≤ x.bmod (2 ^ 32) ∧ x.bmod (2 ^ 32) < 2 ^ 31 := by
  refine ⟨x.bdiv (2 ^ 32), (Int.bmod_add_bdiv x _).symm, ?_, ?_⟩
  · rw [Int.bmod]
    omega
  · rw [Int.bmod]
    omega

theorem guestSize_of_nonneg {w r : Nat} (h : 0 ≤ ((w : Int) - r).bmod (2 ^ 32)) :
    (guestSize size w r : Int) = ((w : Int) - r).bmod (2 ^ 32) := by
  obtain ⟨k, hk, hlo, hhi⟩ := bmod_spec ((w : Int) - r)
  simp only [guestSize]
  rw [if_neg (not_lt.mpr h)]
  omega

theorem guestSize_of_neg {w r : Nat} (h : ((w : Int) - r).bmod (2 ^ 32) < 0) :
    (guestSize size w r : Int) = (((w : Int) - r).bmod (2 ^ 32) + size).bmod (2 ^ 32) % 2 ^ 64 := by
  simp only [guestSize]
  rw [if_pos h]
  omega

/-- The difference is the number of elements exactly if that is an `int`, and the indices, if the
read index is ahead, are not too far apart. -/
theorem guestSize_eq_iff (hlt : size < 2 ^ 32) {C n : Nat} (hn : n < size) :
    guestSize size ((C + n) % size) (C % size) = n ↔
      n < 2 ^ 31 ∧ (size ≤ C % size + n → size - n ≤ 2 ^ 31) := by
  have hC := Nat.mod_lt C (by omega : 0 < size)
  obtain ⟨k, hk, hlo, hhi⟩ := bmod_spec ((((C + n) % size : Nat) : Int) - (C % size : Nat))
  rcases lt_or_ge ((((C + n) % size : Nat) - (C % size : Nat) : Int).bmod (2 ^ 32)) 0 with hneg | hpos
  · have hres := @guestSize_of_neg size _ _ hneg
    obtain ⟨k', hk', hlo', hhi'⟩ := bmod_spec
      ((((C + n) % size : Nat) - (C % size : Nat) : Int).bmod (2 ^ 32) + size)
    rcases slot_add_cases (C := C) hn with ⟨hlt', hslot⟩ | ⟨hge, hslot⟩
    · omega
    · omega
  · have hres := @guestSize_of_nonneg size _ _ hpos
    rcases slot_add_cases (C := C) hn with ⟨hlt', hslot⟩ | ⟨hge, hslot⟩
    · omega
    · omega

end HSingleFastQueue

namespace Shared

variable {α : Type} {size P C : Nat} {s s' : Shared α}

/-! ## The indices -/

/-- What the producer's local variables mean. -/
def ProducerAt (size P C : Nat) : ProducerPc α → Prop
  | .idle => True
  | .loadReadIndex _ current => current = P % size
  | .construct _ next => next = (P + 1) % size ∧ P + 2 ≤ C + size
  | .storeWriteIndex _ next => next = (P + 1) % size ∧ P + 2 ≤ C + size

/-- What the consumer's local variables mean. -/
def ConsumerAt (size P C : Nat) : ConsumerPc α → Prop
  | .idle => True
  | .loadWriteIndex current => current = C % size
  | .moveOut _ next => next = (C + 1) % size ∧ C < P
  | .destroy _ next _ => next = (C + 1) % size ∧ C < P
  | .storeReadIndex next _ => next = (C + 1) % size ∧ C < P

def PopAt (size P C : Nat) : PopPc → Prop
  | .idle => True
  | .loadWriteIndex current => current = C % size
  | .destroy _ next => next = (C + 1) % size ∧ C < P
  | .storeReadIndex next => next = (C + 1) % size ∧ C < P

/-- What a `GuestSize` has seen: at the load of the write index `P` values were accepted, at the load
of the read index `C` were taken. -/
def Seen (size P C : Nat) : GuestPc → Prop
  | .idle => True
  | .haveWriteIndex w => w = P % size
  | .haveReadIndex r => r = C % size
  | .computed n => n = guestSize size (P % size) (C % size)

/-- The write index does not move in a `GuestSize` of the producer, and the read index does not move
in one of the consumer. -/
structure Inv (size : Nat) (s : Shared α) : Prop where
  le : s.taken ≤ s.queue.accepted.length
  room : s.queue.accepted.length < s.taken + size
  write : s.queue.writeIndex = s.queue.accepted.length % size
  read : s.queue.readIndex = s.taken % size
  producer : ProducerAt size s.queue.accepted.length s.taken s.queue.producer
  consumer : ConsumerAt size s.queue.accepted.length s.taken s.queue.consumer
  pop : PopAt size s.queue.accepted.length s.taken s.pop
  producerGuest : ∃ C ≤ s.taken, s.queue.accepted.length < C + size ∧
    Seen size s.queue.accepted.length C s.producerGuest
  consumerGuest : ∃ P ≤ s.queue.accepted.length, s.taken ≤ P ∧ Seen size P s.taken s.consumerGuest

theorem inv_init (h2 : 2 ≤ size) : Inv size (init : Shared α) where
  le := le_rfl
  room := by
    show 0 < 0 + size
    omega
  write := (Nat.zero_mod size).symm
  read := (Nat.zero_mod size).symm
  producer := trivial
  consumer := trivial
  pop := trivial
  producerGuest := ⟨0, le_rfl, by show 0 < 0 + size; omega, trivial⟩
  consumerGuest := ⟨0, le_rfl, le_rfl, trivial⟩

theorem ProducerAt.mono {C' : Nat} {pc : ProducerPc α} (h : ProducerAt size P C pc) (hC : C ≤ C') :
    ProducerAt size P C' pc := by
  cases pc with
  | idle => trivial
  | loadReadIndex v current => exact h
  | construct v next => exact ⟨h.1, h.2.trans (by omega)⟩
  | storeWriteIndex v next => exact ⟨h.1, h.2.trans (by omega)⟩

theorem ConsumerAt.mono {P' : Nat} {pc : ConsumerPc α} (h : ConsumerAt size P C pc) (hP : P ≤ P') :
    ConsumerAt size P' C pc := by
  cases pc with
  | idle => trivial
  | loadWriteIndex current => exact h
  | moveOut current next => exact ⟨h.1, h.2.trans_le hP⟩
  | destroy current next value => exact ⟨h.1, h.2.trans_le hP⟩
  | storeReadIndex next value => exact ⟨h.1, h.2.trans_le hP⟩

theorem PopAt.mono {P' : Nat} {pc : PopPc} (h : PopAt size P C pc) (hP : P ≤ P') :
    PopAt size P' C pc := by
  cases pc with
  | idle => trivial
  | loadWriteIndex current => exact h
  | destroy current next => exact ⟨h.1, h.2.trans_le hP⟩
  | storeReadIndex next => exact ⟨h.1, h.2.trans_le hP⟩

namespace Inv

theorem empty_iff (h : Inv size s) :
    s.queue.readIndex = s.queue.writeIndex ↔ s.taken = s.queue.accepted.length := by
  rw [h.read, h.write]
  exact slot_eq_iff h.le h.room

theorem full_iff (h2 : 2 ≤ size) (hlt : size < 2 ^ 32) (h : Inv size s) :
    nextPos size s.queue.writeIndex = s.queue.readIndex ↔
      s.queue.accepted.length + 1 = s.taken + size := by
  rw [h.read, h.write, nextPos_mod h2 hlt]
  exact slot_next_iff h.le h.room

theorem push_step (h2 : 2 ≤ size) (hlt : size < 2 ^ 32) (h : Inv size s) {q : HSingleFastQueue α}
    (hidle : s.producerGuest = .idle) (hs : PushStep size s.queue q) :
    Inv size { s with queue := q } := by
  have hprod := h.producer
  cases hs with
  | loadWriteIndex v hp => exact { h with producer := h.write }
  | full v current hp hfull => exact { h with producer := trivial }
  | notFull v current hp hroom =>
    rw [hp] at hprod
    obtain rfl : current = s.queue.writeIndex := Eq.trans hprod h.write.symm
    have hfull := mt (h.full_iff h2 hlt).mpr hroom
    have hroom' := h.room
    refine { h with producer := ⟨?_, ?_⟩ }
    · rw [h.write, nextPos_mod h2 hlt]
    · show s.queue.accepted.length + 2 ≤ s.taken + size
      omega
  | construct v next hp =>
    rw [hp] at hprod
    exact { h with producer := hprod }
  | storeWriteIndex v next hp =>
    rw [hp] at hprod
    obtain ⟨rfl, hroom⟩ := hprod
    have hlen : (s.queue.accepted ++ [v]).length = s.queue.accepted.length + 1 := List.length_append
    have hle : s.queue.accepted.length ≤ (s.queue.accepted ++ [v]).length := by omega
    obtain ⟨P, hP, hP', hseen⟩ := h.consumerGuest
    refine ⟨h.le.trans hle, ?_, ?_, h.read, trivial, h.consumer.mono hle, h.pop.mono hle, ?_,
      ⟨P, hP.trans hle, hP', hseen⟩⟩
    · show (s.queue.accepted ++ [v]).length < s.taken + size
      omega
    · show _ = (s.queue.accepted ++ [v]).length % size
      rw [hlen]
    · refine ⟨s.taken, le_rfl, ?_, ?_⟩
      · show (s.queue.accepted ++ [v]).length < s.taken + size
        omega
      · rw [hidle]
        trivial

theorem take (h : Inv size s) (hlt : s.taken < s.queue.accepted.length)
    (hidle : s.consumerGuest = .idle) (hs : s'.taken = s.taken + 1)
    (haccepted : s'.queue.accepted = s.queue.accepted)
    (hwrite : s'.queue.writeIndex = s.queue.writeIndex)
    (hread : s'.queue.readIndex = (s.taken + 1) % size)
    (hproducer : s'.queue.producer = s.queue.producer) (hconsumer : s'.queue.consumer = .idle)
    (hpop : s'.pop = .idle) (hproducerGuest : s'.producerGuest = s.producerGuest)
    (hconsumerGuest : s'.consumerGuest = s.consumerGuest) : Inv size s' := by
  have hroom := h.room
  obtain ⟨C, hC, hC', hseen⟩ := h.producerGuest
  refine ⟨?_, ?_, ?_, ?_, ?_, ?_, ?_, ⟨C, ?_, ?_, ?_⟩, ⟨s.queue.accepted.length, ?_, ?_, ?_⟩⟩
  · rw [hs, haccepted]
    exact hlt
  · rw [hs, haccepted]
    omega
  · rw [hwrite, haccepted]
    exact h.write
  · rw [hs, hread]
  · rw [hs, haccepted, hproducer]
    exact h.producer.mono (Nat.le_succ _)
  · rw [hconsumer]
    trivial
  · rw [hpop]
    trivial
  · rw [hs]
    exact hC.trans (Nat.le_succ _)
  · rw [haccepted]
    exact hC'
  · rw [haccepted, hproducerGuest]
    exact hseen
  · rw [haccepted]
  · rw [hs]
    exact hlt
  · rw [hconsumerGuest, hidle]
    trivial

theorem get_step (h2 : 2 ≤ size) (hlt : size < 2 ^ 32) (h : Inv size s) {q : HSingleFastQueue α}
    (hidle : s.consumerGuest = .idle) (hpop : s.pop = .idle) (hs : GetStep size s.queue q) :
    Inv size { s with queue := q } := by
  have hcons := h.consumer
  cases hs with
  | loadReadIndex hc => exact { h with consumer := h.read }
  | empty current hc heq => exact { h with consumer := trivial }
  | notEmpty current hc hne =>
    rw [hc] at hcons
    obtain rfl : current = s.queue.readIndex := Eq.trans hcons h.read.symm
    refine { h with consumer := ⟨?_, lt_of_le_of_ne h.le (mt h.empty_iff.mpr hne)⟩ }
    rw [h.read, nextPos_mod h2 hlt]
    rfl
  | moveOut current next hc =>
    rw [hc] at hcons
    exact { h with consumer := hcons }
  | destroy current next value hc =>
    rw [hc] at hcons
    exact { h with consumer := hcons }
  | storeReadIndex next value hc =>
    rw [hc] at hcons
    obtain ⟨rfl, hCP⟩ := hcons
    refine h.take hCP hidle ?_ rfl rfl rfl rfl rfl hpop rfl rfl
    rw [taken, List.length_append, taken]
    exact Nat.add_right_comm _ 1 _

theorem pop_step (h2 : 2 ≤ size) (hlt : size < 2 ^ 32) (h : Inv size s)
    (hconsumer : s.queue.consumer = .idle) (hidle : s.consumerGuest = .idle)
    (hs : PopStep size s s') : Inv size s' := by
  have hpop := h.pop
  cases hs with
  | loadReadIndex hp => exact { h with pop := h.read }
  | notEmpty current hp hne =>
    rw [hp] at hpop
    obtain rfl : current = s.queue.readIndex := Eq.trans hpop h.read.symm
    refine { h with pop := ⟨?_, lt_of_le_of_ne h.le (mt h.empty_iff.mpr hne)⟩ }
    rw [h.read, nextPos_mod h2 hlt]
    rfl
  | destroy current next hp =>
    rw [hp] at hpop
    exact { h with pop := hpop }
  | storeReadIndex next hp =>
    rw [hp] at hpop
    obtain ⟨rfl, hCP⟩ := hpop
    exact h.take hCP hidle rfl rfl rfl rfl rfl hconsumer rfl rfl rfl

/-! ## What a GuestSize has seen -/

/-- In a `GuestSize` of the producer it is the read index that may have moved. -/
theorem producerGuest_step (h : Inv size s) {g : GuestPc}
    (hs : GuestStep size s.queue.writeIndex s.queue.readIndex s.producerGuest g) :
    Inv size { s with producerGuest := g } := by
  obtain ⟨C, hC, hC', hseen⟩ := h.producerGuest
  have hroom := h.room
  refine { h with producerGuest := ?_ }
  cases hg : s.producerGuest with
  | idle =>
    rw [hg] at hs
    cases hs with
    | writeFirst => exact ⟨s.taken, le_rfl, hroom, h.write⟩
    | readFirst => exact ⟨s.taken, le_rfl, hroom, h.read⟩
  | haveWriteIndex w =>
    rw [hg] at hs hseen
    cases hs with
    | thenRead =>
      refine ⟨s.taken, le_rfl, hroom, ?_⟩
      obtain rfl : w = _ := hseen
      rw [h.read]
      rfl
  | haveReadIndex r =>
    rw [hg] at hs hseen
    cases hs with
    | thenWrite =>
      refine ⟨C, hC, hC', ?_⟩
      obtain rfl : r = _ := hseen
      rw [h.write]
      rfl
  | computed n =>
    rw [hg] at hs
    cases hs with
    | finish => exact ⟨C, hC, hC', trivial⟩

theorem consumerGuest_step (h : Inv size s) {g : GuestPc}
    (hs : GuestStep size s.queue.writeIndex s.queue.readIndex s.consumerGuest g) :
    Inv size { s with consumerGuest := g } := by
  obtain ⟨P, hP, hP', hseen⟩ := h.consumerGuest
  have hle := h.le
  refine { h with consumerGuest := ?_ }
  cases hg : s.consumerGuest with
  | idle =>
    rw [hg] at hs
    cases hs with
    | writeFirst => exact ⟨s.queue.accepted.length, le_rfl, hle, h.write⟩
    | readFirst => exact ⟨s.queue.accepted.length, le_rfl, hle, h.read⟩
  | haveWriteIndex w =>
    rw [hg] at hs hseen
    cases hs with
    | thenRead =>
      refine ⟨P, hP, hP', ?_⟩
      obtain rfl : w = _ := hseen
      rw [h.read]
      rfl
  | haveReadIndex r =>
    rw [hg] at hs hseen
    cases hs with
    | thenWrite =>
      refine ⟨s.queue.accepted.length, le_rfl, hle, ?_⟩
      obtain rfl : r = _ := hseen
      rw [h.write]
      rfl
  | computed n =>
    rw [hg] at hs
    cases hs with
    | finish => exact ⟨P, hP, hP', trivial⟩

theorem step (h2 : 2 ≤ size) (hlt : size < 2 ^ 32) (h : Inv size s) {t : Thread}
    (hs : Step size s t s') : Inv size s' := by
  cases hs with
  | push q hidle hs => exact h.push_step h2 hlt hidle hs
  | producerGuest g _ hs => exact h.producerGuest_step hs
  | get q hidle hpop hs => exact h.get_step h2 hlt hidle hpop hs
  | consumerGuest g _ _ hs => exact h.consumerGuest_step hs
  | pop _ hconsumer hidle hs => exact h.pop_step h2 hlt hconsumer hidle hs

end Inv

theorem reachable_inv (h2 : 2 ≤ size) (hlt : size < 2 ^ 32) (h : (system size).Reachable s) :
    Inv size s := by
  refine h.invariant (Inv size) ?_ ?_
  · rintro s rfl
    exact inv_init h2
  · intro s t s' hs hstep
    exact hs.step h2 hlt hstep

/-! ## Sizes that are an `int` -/

theorem guestSize_exact (hsize : size ≤ 2 ^ 31) (hle : C ≤ P) (hroom : P < C + size) :
    guestSize size (P % size) (C % size) = P - C := by
  obtain ⟨n, rfl⟩ := Nat.exists_eq_add_of_le hle
  rw [Nat.add_sub_cancel_left]
  exact (guestSize_eq_iff (by omega) (by omega)).mpr ⟨by omega, fun _ => by omega⟩

namespace Inv

theorem sizes (h2 : 2 ≤ size) (hsize : size ≤ 2 ^ 31) (h : Inv size s) : s.Exact size := by
  have hle := h.le
  have hroom := h.room
  have hcount : guestSize size s.queue.writeIndex s.queue.readIndex = s.pending := by
    rw [h.write, h.read]
    exact guestSize_exact hsize hle hroom
  have hempty : s.queue.isEmpty = true ↔ s.queue.readIndex = s.queue.writeIndex := beq_iff_eq
  have hfull : s.queue.isFull size = true ↔
      nextPos size s.queue.writeIndex = s.queue.readIndex := by
    rw [isFull, Bool.not_eq_true', bne_eq_false_iff_eq]
  refine ⟨hcount, ?_, ?_, ?_, ?_, ?_⟩
  · rw [pending, capacity]
    omega
  · rw [hcount, hempty, h.empty_iff, pending]
    omega
  · intro storage
    rw [hempty, Owned.get]
    dsimp only
    split
    · next heq => exact iff_of_true heq rfl
    · next hne => exact iff_of_false hne Bool.noConfusion
  · rw [hcount, hfull, h.full_iff h2 (by omega), pending, capacity]
    omega
  · intro v storage
    rw [hfull, Owned.push]
    dsimp only
    split
    · next hne => exact iff_of_false hne Bool.noConfusion
    · next heq => exact iff_of_true (not_not.mp heq) rfl

theorem oneSided (hsize : size ≤ 2 ^ 31) (h : Inv size s) : s.OneSided := by
  constructor
  · intro n hn
    obtain ⟨P, hP, hP', hseen⟩ := h.consumerGuest
    rw [hn] at hseen
    obtain rfl : n = _ := hseen
    have hroom := h.room
    rw [guestSize_exact hsize hP' (by omega)]
    exact Nat.sub_le_sub_right hP _
  · intro n hn
    obtain ⟨C, hC, hC', hseen⟩ := h.producerGuest
    rw [hn] at hseen
    obtain rfl : n = _ := hseen
    have hle := h.le
    rw [guestSize_exact hsize (by omega) hC']
    exact Nat.sub_le_sub_left hC _

end Inv

/-! ## Larger sizes -/

theorem fill (h2 : 2 ≤ size) (hlt : size < 2 ^ 32) (k : Nat) (hk : k < size) :
    ∃ s : Shared Unit, (system size).Reachable s ∧ s.Quiescent ∧ s.taken = 0 ∧
      s.queue.accepted.length = k := by
  induction k with
  | zero => exact ⟨init, .of_init rfl, ⟨rfl, rfl, rfl, rfl, rfl⟩, rfl, rfl⟩
  | succ k ih =>
    obtain ⟨s, h, hq, htaken, hlen⟩ := ih (by omega)
    have hinv := reachable_inv h2 hlt h
    have hroom : nextPos size s.queue.writeIndex ≠ s.queue.readIndex := by
      rw [Ne, hinv.full_iff h2 hlt]
      omega
    have h₁ := h.next (Step.push s _ hq.producerGuest (.loadWriteIndex _ () hq.producer))
    have h₂ := h₁.next (Step.push _ _ hq.producerGuest (.notFull _ () _ rfl hroom))
    have h₃ := h₂.next (Step.push _ _ hq.producerGuest (.construct _ () _ rfl))
    have h₄ := h₃.next (Step.push _ _ hq.producerGuest (.storeWriteIndex _ () _ rfl))
    refine ⟨_, h₄, ⟨rfl, hq.consumer, hq.producerGuest, hq.consumerGuest, hq.pop⟩, htaken, ?_⟩
    rw [List.length_append, hlen]
    rfl

/-- From `2 ^ 31` elements on the difference is not an `int`. -/
theorem not_sizesExact (hsize : 2 ^ 31 < size) (hlt : size < 2 ^ 32) : ¬ SizesExact size := by
  intro hall
  obtain ⟨s, h, hq, htaken, hlen⟩ := fill (by omega) hlt (2 ^ 31) hsize
  have hinv := reachable_inv (by omega) hlt h
  have hcount := ((hall Unit s h).1 hq).count
  rw [hinv.write, hinv.read, pending, htaken, hlen, Nat.sub_zero] at hcount
  have hiff := guestSize_eq_iff (C := 0) hlt hsize
  rw [Nat.zero_add] at hiff
  exact absurd (hiff.mp hcount).1 (lt_irrefl _)

end Shared

open Shared

/-- **The size queries.** In every state that one producer and one consumer reach, `GuestSize`,
`isEmpty` and `isFull` are exact when no call is in progress and `GuestSize` is one-sided otherwise,
exactly if the size of the queue is at most `2 ^ 31`. -/
theorem sizesExact_iff (size : Nat) (h2 : 2 ≤ size) (hlt : size < 2 ^ 32) :
    SizesExact size ↔ size ≤ 2 ^ 31 := by
  constructor
  · intro hall
    by_contra hbig
    exact not_sizesExact (not_le.mp hbig) hlt hall
  · intro hsize α s h
    have hinv := reachable_inv h2 hlt h
    exact ⟨fun _ => hinv.sizes h2 hsize, hinv.oneSided hsize⟩

/-- A queue of three slots. -/
theorem sizesExact_iff_three : SizesExact 3 :=
  (sizesExact_iff 3 (by decide) (by decide)).mpr (by decide)

/-- The smallest size with a capacity that is not an `int`. -/
theorem sizesExact_not : ¬ SizesExact (2 ^ 31 + 1) :=
  not_sizesExact (Nat.lt_succ_self _) (by decide)

end Queue
end Huicpp
