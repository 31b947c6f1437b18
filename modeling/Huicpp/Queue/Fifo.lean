import Mathlib
import Huicpp.Queue.Calls

/-!
# Queue.Fifo

First in, first out, for every interleaving. The invariant counts: with `P` values accepted and `C`
obtained, the indices are `P` and `C` modulo the size, the pending values lie in the slots
`C + 1, …, P`, and `P - C` is below the size. Stale copies of an index are still right, because each
thread is the only one that changes its own index and the other one only moves away from it.
-/

namespace Huicpp
namespace Queue

open Cxx

namespace HSingleFastQueue

variable {α : Type} {size : Nat}

/-- Positions less than `size` apart are in different slots. -/
theorem slot_ne {a b : Nat} (h1 : a < b) (h2 : b < a + size) : a % size ≠ b % size := by
  intro h
  have hd : size ∣ b - a := (Nat.modEq_iff_dvd' (Nat.le_of_lt h1)).mp h
  have := Nat.le_of_dvd (by omega) hd
  omega

theorem slot_eq_iff {a b : Nat} (h1 : a ≤ b) (h2 : b < a + size) : a % size = b % size ↔ a = b := by
  constructor
  · intro h
    by_contra hne
    exact slot_ne (lt_of_le_of_ne h1 hne) h2 h
  · rintro rfl
    rfl

theorem slot_next_iff {a b : Nat} (h1 : a ≤ b) (h2 : b < a + size) :
    (b + 1) % size = a % size ↔ b + 1 = a + size := by
  constructor
  · intro h
    by_contra hne
    exact slot_ne (by omega) (by omega) h.symm
  · intro hfull
    rw [hfull, Nat.add_mod_right]

theorem wrap_mod {m : Nat} (h2 : 2 ≤ size) (hlt : size < m) (k : Nat) :
    (if (k % size + 1) % m = size then 0 else (k % size + 1) % m) = (k + 1) % size := by
  have hk : k % size < size := Nat.mod_lt _ (by omega)
  rw [Nat.mod_eq_of_lt (by omega : k % size + 1 < m)]
  by_cases h : k % size + 1 = size
  · rw [if_pos h, Nat.add_mod, Nat.mod_eq_of_lt (by omega : 1 < size), h, Nat.mod_self]
  · rw [if_neg h, Nat.add_mod, Nat.mod_eq_of_lt (by omega : 1 < size),
      Nat.mod_eq_of_lt (by omega : k % size + 1 < size)]

theorem nextPos_mod (h2 : 2 ≤ size) (hlt : size < 2 ^ 32) (k : Nat) :
    nextPos size (k % size) = (k + 1) % size :=
  wrap_mod h2 hlt k

/-- What the producer's local variables mean. -/
def ProducerInv (size P C : Nat) (data : Nat → Slot α) : ProducerPc α → Prop
  | .idle => True
  | .loadReadIndex _ current => current = P % size
  | .construct _ next => next = (P + 1) % size ∧ P + 2 ≤ C + size
  | .storeWriteIndex v next =>
    next = (P + 1) % size ∧ P + 2 ≤ C + size ∧ data next = .live v

/-- What the consumer's local variables mean. -/
def ConsumerInv (size P C : Nat) (accepted : List α) : ConsumerPc α → Prop
  | .idle => True
  | .loadWriteIndex current => current = C % size
  | .moveOut current next => current = C % size ∧ next = (C + 1) % size ∧ C < P
  | .destroy current next value =>
    current = C % size ∧ next = (C + 1) % size ∧ C < P ∧ value = accepted[C]?
  | .storeReadIndex next value => next = (C + 1) % size ∧ C < P ∧ value = accepted[C]?

/-- The value at position `C` has left its slot, although it is not yet obtained. -/
def MovedOut : ConsumerPc α → Prop
  | .destroy _ _ _ => True
  | .storeReadIndex _ _ => True
  | _ => False

structure Inv (size : Nat) (q : HSingleFastQueue α) : Prop where
  le : q.obtained.length ≤ q.accepted.length
  room : q.accepted.length + 1 ≤ q.obtained.length + size
  write : q.writeIndex = q.accepted.length % size
  read : q.readIndex = q.obtained.length % size
  obtained : q.obtained = (q.accepted.take q.obtained.length).map some
  live : ∀ k v, q.obtained.length ≤ k → (k = q.obtained.length → ¬ MovedOut q.consumer) →
    q.accepted[k]? = some v → q.data ((k + 1) % size) = .live v
  producer : ProducerInv size q.accepted.length q.obtained.length q.data q.producer
  consumer : ConsumerInv size q.accepted.length q.obtained.length q.accepted q.consumer

theorem inv_init (h2 : 2 ≤ size) : Inv size (init : HSingleFastQueue α) where
  le := Nat.le_refl 0
  room := by
    show 0 + 1 ≤ 0 + size
    omega
  write := (Nat.zero_mod size).symm
  read := (Nat.zero_mod size).symm
  obtained := rfl
  live := by
    intro k v _ _ h
    cases h
  producer := trivial
  consumer := trivial

theorem ProducerInv.mono {P C C' : Nat} {data : Nat → Slot α} {pc : ProducerPc α}
    (h : ProducerInv size P C data pc) (hC : C ≤ C') : ProducerInv size P C' data pc := by
  cases pc with
  | idle => trivial
  | loadReadIndex v current => exact h
  | construct v next => exact ⟨h.1, by have := h.2; omega⟩
  | storeWriteIndex v next => exact ⟨h.1, by have := h.2.1; omega, h.2.2⟩

theorem ProducerInv.update {P C i : Nat} {data : Nat → Slot α} {pc : ProducerPc α} {x : Slot α}
    (h : ProducerInv size P C data pc) (hi : P + 2 ≤ C + size → i ≠ (P + 1) % size) :
    ProducerInv size P C (Function.update data i x) pc := by
  cases pc with
  | idle => trivial
  | loadReadIndex v current => exact h
  | construct v next => exact h
  | storeWriteIndex v next =>
    obtain ⟨rfl, hroom, hd⟩ := h
    refine ⟨rfl, hroom, ?_⟩
    rw [Function.update_of_ne (Ne.symm (hi hroom))]
    exact hd

theorem ConsumerInv.append {C : Nat} {accepted : List α} {pc : ConsumerPc α} (v : α)
    (h : ConsumerInv size accepted.length C accepted pc) :
    ConsumerInv size (accepted ++ [v]).length C (accepted ++ [v]) pc := by
  have hlen : (accepted ++ [v]).length = accepted.length + 1 := by simp
  cases pc with
  | idle => trivial
  | loadWriteIndex current => exact h
  | moveOut current next =>
    obtain ⟨h1, h2, h3⟩ := h
    exact ⟨h1, h2, by omega⟩
  | destroy current next value =>
    obtain ⟨h1, h2, h3, h4⟩ := h
    exact ⟨h1, h2, by omega, by rw [List.getElem?_append_left h3, h4]⟩
  | storeReadIndex next value =>
    obtain ⟨h1, h2, h3⟩ := h
    exact ⟨h1, by omega, by rw [List.getElem?_append_left h2, h3]⟩

theorem live_update {accepted : List α} {data : Nat → Slot α} {i C : Nat} {x : Slot α}
    (hi : ∀ k, C ≤ k → k < accepted.length → (k + 1) % size ≠ i) {k : Nat} {v : α} (hk : C ≤ k)
    (hv : accepted[k]? = some v) (h : data ((k + 1) % size) = .live v) :
    Function.update data i x ((k + 1) % size) = .live v := by
  have hlt : k < accepted.length := (List.getElem?_eq_some_iff.mp hv).1
  rw [Function.update_of_ne (hi k hk hlt)]
  exact h

/-! ## Push -/

/-- The read index that was loaded can only have been further behind. -/
theorem Inv.notFull (h2 : 2 ≤ size) (hlt : size < 2 ^ 32) {q : HSingleFastQueue α}
    (h : Inv size q) {v : α} {current : Nat} (hp : q.producer = .loadReadIndex v current)
    (hroom : nextPos size current ≠ q.readIndex) :
    Inv size { q with producer := .construct v (nextPos size current) } := by
  have hcur : current = q.accepted.length % size := by
    have := h.producer
    rwa [hp] at this
  rw [hcur, nextPos_mod h2 hlt, h.read] at hroom
  refine { h with producer := ?_ }
  show nextPos size current = _ ∧ _
  rw [hcur, nextPos_mod h2 hlt]
  refine ⟨rfl, ?_⟩
  show q.accepted.length + 2 ≤ q.obtained.length + size
  have hle := h.room
  rcases Nat.lt_or_ge (q.accepted.length + 1) (q.obtained.length + size) with hlt' | hge
  · omega
  · have heq : q.accepted.length + 1 = q.obtained.length + size := by omega
    rw [heq, Nat.add_mod_right] at hroom
    exact absurd rfl hroom

theorem Inv.construct {q : HSingleFastQueue α} (h : Inv size q) {v : α} {next : Nat}
    (hp : q.producer = .construct v next) :
    Inv size { q with
      data := Function.update q.data next (.live v)
      producer := .storeWriteIndex v next } := by
  have hprod := h.producer
  rw [hp] at hprod
  obtain ⟨rfl, hroom⟩ := hprod
  refine { h with live := ?_, producer := ⟨rfl, hroom, Function.update_self _ _ _⟩ }
  have hi : ∀ k, q.obtained.length ≤ k → k < q.accepted.length →
      (k + 1) % size ≠ (q.accepted.length + 1) % size :=
    fun k h1 h2 => slot_ne (by omega) (by omega)
  exact fun k w hk hmoved hw => live_update hi hk hw (h.live k w hk hmoved hw)

theorem Inv.storeWriteIndex {q : HSingleFastQueue α} (h : Inv size q) {v : α} {next : Nat}
    (hp : q.producer = .storeWriteIndex v next) :
    Inv size { q with
      writeIndex := next
      producer := .idle
      accepted := q.accepted ++ [v] } := by
  have hprod := h.producer
  rw [hp] at hprod
  obtain ⟨rfl, hroom, hdata⟩ := hprod
  have hle := h.le
  have hlen : (q.accepted ++ [v]).length = q.accepted.length + 1 := by simp
  refine ⟨?_, ?_, ?_, h.read, ?_, ?_, trivial, h.consumer.append v⟩
  · simp only [hlen]
    omega
  · simp only [hlen]
    omega
  · simp only [hlen]
  · show q.obtained = _
    rw [List.take_append_of_le_length hle]
    exact h.obtained
  · intro k w hk hmoved hw
    rcases Nat.lt_or_ge k q.accepted.length with hkP | hkP
    · rw [List.getElem?_append_left hkP] at hw
      exact h.live k w hk hmoved hw
    · have hkeq : k = q.accepted.length := by
        have hlt' : k < (q.accepted ++ [v]).length := (List.getElem?_eq_some_iff.mp hw).1
        omega
      subst hkeq
      rw [List.getElem?_concat_length] at hw
      cases hw
      exact hdata

theorem Inv.push_step (h2 : 2 ≤ size) (hlt : size < 2 ^ 32) {q q' : HSingleFastQueue α}
    (h : Inv size q) (hs : PushStep size q q') : Inv size q' := by
  cases hs with
  | loadWriteIndex v hp => exact { h with producer := h.write }
  | full v current hp hfull => exact { h with producer := trivial }
  | notFull v current hp hroom => exact h.notFull h2 hlt hp hroom
  | construct v next hp => exact h.construct hp
  | storeWriteIndex v next hp => exact h.storeWriteIndex hp

/-! ## Get -/

theorem Inv.consumer_before {q : HSingleFastQueue α} (h : Inv size q)
    (hm : ¬ MovedOut q.consumer) {pc : ConsumerPc α}
    (hc : ConsumerInv size q.accepted.length q.obtained.length q.accepted pc) :
    Inv size { q with consumer := pc } :=
  { h with
    live := fun k v hk _ hv => h.live k v hk (fun _ => hm) hv
    consumer := hc }

theorem Inv.notEmpty (h2 : 2 ≤ size) (hlt : size < 2 ^ 32) {q : HSingleFastQueue α}
    (h : Inv size q) {current : Nat} (hc : q.consumer = .loadWriteIndex current)
    (hne : current ≠ q.writeIndex) :
    Inv size { q with consumer := .moveOut current (nextPos size current) } := by
  have hcur : current = q.obtained.length % size := by
    have := h.consumer
    rwa [hc] at this
  have hlt' : q.obtained.length < q.accepted.length := by
    refine Nat.lt_of_le_of_ne h.le fun heq => hne ?_
    rw [hcur, h.write, heq]
  refine h.consumer_before (by rw [hc]; exact id) ⟨hcur, ?_, hlt'⟩
  rw [hcur, nextPos_mod h2 hlt]

theorem Inv.leaveSlot {q : HSingleFastQueue α} (h : Inv size q) {i : Nat} {x : Slot α}
    {pc : ConsumerPc α} (hm : MovedOut pc)
    (hi : ∀ k, q.obtained.length < k → k < q.accepted.length → (k + 1) % size ≠ i)
    (hP : q.accepted.length + 2 ≤ q.obtained.length + size →
      i ≠ (q.accepted.length + 1) % size)
    (hc : ConsumerInv size q.accepted.length q.obtained.length q.accepted pc) :
    Inv size { q with data := Function.update q.data i x, consumer := pc } := by
  refine { h with live := ?_, producer := h.producer.update hP, consumer := hc }
  intro k v hk hmoved hv
  have hkC : k ≠ q.obtained.length := fun heq => hmoved heq hm
  have hk' : q.obtained.length < k := Nat.lt_of_le_of_ne hk (Ne.symm hkC)
  exact live_update (fun k h1 h2 => hi k h1 h2) hk' hv (h.live k v hk (fun heq => absurd heq hkC) hv)

theorem Inv.moveOut {q : HSingleFastQueue α} (h : Inv size q) {current next : Nat}
    (hc : q.consumer = .moveOut current next) :
    Inv size { q with
      data := Function.update q.data next .moved
      consumer := .destroy current next (q.data next).value } := by
  have hroom := h.room
  have hcons := h.consumer
  rw [hc] at hcons
  obtain ⟨hcur, rfl, hCP⟩ := hcons
  refine h.leaveSlot trivial ?_ ?_ ⟨hcur, rfl, hCP, ?_⟩
  · exact fun k h1 h2 => Ne.symm (slot_ne (by omega) (by omega))
  · exact fun hP => slot_ne (by omega) (by omega)
  · have hget : q.accepted[q.obtained.length]? = some q.accepted[q.obtained.length] :=
      List.getElem?_eq_getElem hCP
    rw [h.live _ _ (Nat.le_refl _) (by rw [hc]; exact fun _ h => h) hget]
    exact hget.symm

theorem Inv.destroy {q : HSingleFastQueue α} (h : Inv size q) {current next : Nat}
    {value : Option α} (hc : q.consumer = .destroy current next value) :
    Inv size { q with
      data := Function.update q.data current .raw
      consumer := .storeReadIndex next value } := by
  have hroom := h.room
  have hcons := h.consumer
  rw [hc] at hcons
  obtain ⟨rfl, hnext, hCP, hvalue⟩ := hcons
  refine h.leaveSlot trivial ?_ ?_ ⟨hnext, hCP, hvalue⟩
  · exact fun k h1 h2 => Ne.symm (slot_ne (by omega) (by omega))
  · exact fun hP => slot_ne (by omega) (by omega)

theorem Inv.storeReadIndex {q : HSingleFastQueue α} (h : Inv size q) {next : Nat}
    {value : Option α} (hc : q.consumer = .storeReadIndex next value) :
    Inv size { q with
      readIndex := next
      consumer := .idle
      obtained := q.obtained ++ [value] } := by
  have hroom := h.room
  have hcons := h.consumer
  rw [hc] at hcons
  obtain ⟨rfl, hCP, rfl⟩ := hcons
  have hlen : (q.obtained ++ [q.accepted[q.obtained.length]?]).length = q.obtained.length + 1 := by
    simp
  refine ⟨?_, ?_, h.write, ?_, ?_, ?_, ?_, trivial⟩
  · simp only [hlen]
    omega
  · simp only [hlen]
    omega
  · simp only [hlen]
  · show q.obtained ++ [_] = _
    rw [hlen, List.take_succ_eq_append_getElem hCP, List.map_append, ← h.obtained,
      List.getElem?_eq_getElem hCP]
    rfl
  · intro k v hk _ hv
    simp only [hlen] at hk
    exact h.live k v (by omega) (fun heq => absurd heq (by omega)) hv
  · simp only [hlen]
    exact h.producer.mono (by omega)

theorem Inv.get_step (h2 : 2 ≤ size) (hlt : size < 2 ^ 32) {q q' : HSingleFastQueue α}
    (h : Inv size q) (hs : GetStep size q q') : Inv size q' := by
  cases hs with
  | loadReadIndex hc => exact h.consumer_before (by rw [hc]; exact id) h.read
  | empty current hc heq => exact h.consumer_before (by rw [hc]; exact id) trivial
  | notEmpty current hc hne => exact h.notEmpty h2 hlt hc hne
  | moveOut current next hc => exact h.moveOut hc
  | destroy current next value hc => exact h.destroy hc
  | storeReadIndex next value hc => exact h.storeReadIndex hc

/-! ## Every interleaving -/

theorem reachable_inv (h2 : 2 ≤ size) (hlt : size < 2 ^ 32) {q : HSingleFastQueue α}
    (h : (system size).Reachable q) : Inv size q := by
  refine h.invariant (Inv size) ?_ ?_
  · rintro q rfl
    exact inv_init h2
  · intro q a q' hq hs
    cases a with
    | producer => exact hq.push_step h2 hlt hs
    | consumer => exact hq.get_step h2 hlt hs

/-- The two threads are never about to access the same slot, and no slot is outside the array. -/
theorem Inv.slots (h2 : 2 ≤ size) {q : HSingleFastQueue α} (h : Inv size q) :
    (∀ i ∈ q.producerSlot, i < size) ∧ (∀ j ∈ q.consumerSlot, j < size) ∧
      ∀ i ∈ q.producerSlot, ∀ j ∈ q.consumerSlot, i ≠ j := by
  have hprod := h.producer
  have hcons := h.consumer
  have hpos : 0 < size := by omega
  refine ⟨?_, ?_, ?_⟩
  · intro i hi
    cases hp : q.producer with
    | construct v next =>
      rw [hp] at hprod
      simp only [producerSlot, hp, Option.mem_def, Option.some.injEq] at hi
      obtain ⟨rfl, _⟩ := hprod
      exact hi ▸ Nat.mod_lt _ hpos
    | _ => simp [producerSlot, hp] at hi
  · intro j hj
    cases hc : q.consumer with
    | moveOut current next =>
      rw [hc] at hcons
      simp only [consumerSlot, hc, Option.mem_def, Option.some.injEq] at hj
      obtain ⟨_, rfl, _⟩ := hcons
      exact hj ▸ Nat.mod_lt _ hpos
    | destroy current next value =>
      rw [hc] at hcons
      simp only [consumerSlot, hc, Option.mem_def, Option.some.injEq] at hj
      obtain ⟨rfl, _⟩ := hcons
      exact hj ▸ Nat.mod_lt _ hpos
    | _ => simp [consumerSlot, hc] at hj
  · intro i hi j hj
    cases hp : q.producer with
    | construct v next =>
      rw [hp] at hprod
      simp only [producerSlot, hp, Option.mem_def, Option.some.injEq] at hi
      obtain ⟨rfl, hroom⟩ := hprod
      subst hi
      cases hc : q.consumer with
      | moveOut current next =>
        rw [hc] at hcons
        simp only [consumerSlot, hc, Option.mem_def, Option.some.injEq] at hj
        obtain ⟨_, rfl, hCP⟩ := hcons
        exact hj ▸ Ne.symm (slot_ne (by omega) (by omega))
      | destroy current next value =>
        rw [hc] at hcons
        simp only [consumerSlot, hc, Option.mem_def, Option.some.injEq] at hj
        obtain ⟨rfl, _, hCP, _⟩ := hcons
        exact hj ▸ Ne.symm (slot_ne (by omega) (by omega))
      | _ => simp [consumerSlot, hc] at hj
    | _ => simp [producerSlot, hp] at hi

/-- **First in, first out.** In every state of every interleaving: what was obtained is a prefix of
what was accepted, fewer than `size` values are pending, and the threads are never about to access
the same slot. -/
theorem fifo (h2 : 2 ≤ size) (hlt : size < 2 ^ 32) (q : HSingleFastQueue α)
    (h : (system size).Reachable q) :
    q.obtained <+: q.accepted.map some ∧
      q.accepted.length ≤ q.obtained.length + (size - 1) ∧
      (∀ i ∈ q.producerSlot, i < size) ∧ (∀ j ∈ q.consumerSlot, j < size) ∧
      ∀ i ∈ q.producerSlot, ∀ j ∈ q.consumerSlot, i ≠ j := by
  have hinv := reachable_inv h2 hlt h
  refine ⟨?_, ?_, hinv.slots h2⟩
  · rw [hinv.obtained, List.map_take]
    exact List.take_prefix _ _
  · have := hinv.room
    omega

/-- 7 and 8 were pushed and 7 was popped. Now one thread is about to construct 9 in slot 0 and the other
one to move 8 out of slot 2. -/
theorem fifo_popped : ∃ q : HSingleFastQueue Nat, q.accepted = [7, 8] ∧ q.obtained = [some 7] ∧
    q.producerSlot = some 0 ∧ q.consumerSlot = some 2 ∧
    (q.obtained <+: q.accepted.map some ∧
      q.accepted.length ≤ q.obtained.length + (3 - 1) ∧
      (∀ i ∈ q.producerSlot, i < 3) ∧ (∀ j ∈ q.consumerSlot, j < 3) ∧
      ∀ i ∈ q.producerSlot, ∀ j ∈ q.consumerSlot, i ≠ j) := by
  have h0 : (system 3).Reachable (Owned.init : Owned Nat).queue := .of_init rfl
  have h1 := Owned.push_reachable (v := 7) h0 rfl
  have h2 := Owned.push_reachable (v := 8) h1 rfl
  have h3 := Owned.get_reachable h2 rfl
  have h4 := Owned.pushStep_reachable h3 (.loadWriteIndex _ 9 rfl)
  have h5 := Owned.pushStep_reachable h4 (.notFull _ 9 _ rfl (by decide))
  have h6 := Owned.getStep_reachable h5 (.loadReadIndex _ rfl)
  have h7 := Owned.getStep_reachable h6 (.notEmpty _ _ rfl (by decide))
  exact ⟨_, rfl, rfl, rfl, rfl, fifo (by decide) (by decide) _ h7⟩

end HSingleFastQueue

end Queue
end Huicpp
