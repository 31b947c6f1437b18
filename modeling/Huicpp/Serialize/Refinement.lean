import Mathlib
import Huicpp.Serialize.Commands

/-!
# Serialize.Refinement

`CDataStream` refines the tape. Every valid stream is `ofTape t` for some tape `t`, so a call is
correct when it commutes with `ofTape`: one lemma per operation, `exec_ofTape` for all of them, and
`refines_iff` for sequences.

The exception is `ignore` landing exactly on the end of a partly consumed buffer. It clears the
buffer but keeps the read position, and no tape represents the result (`exec_irregular`).
-/

namespace Huicpp
namespace Serialize

open Cxx CDataStream

theorem valid_ofTape (t : Tape Byte) : (ofTape t).Valid := by
  show t.past.length ≤ t.layout.length
  rw [Tape.layout_length]
  omega

@[simp] theorem past_ofTape (t : Tape Byte) : (ofTape t).past = t.past := List.take_left

@[simp] theorem unread_ofTape (t : Tape Byte) : (ofTape t).unread = t.rest := List.drop_left

@[simp] theorem nReadPos_ofTape (t : Tape Byte) : (ofTape t).nReadPos = t.past.length := rfl

@[simp] theorem vch_ofTape (t : Tape Byte) : (ofTape t).vch = t.layout := rfl

theorem eq_ofTape {s : CDataStream} (h : s.Valid) : s = ofTape ⟨s.past, s.unread⟩ := by
  have h1 := s.past_append_unread
  have h2 := h.past_length
  obtain ⟨vch, nReadPos⟩ := s
  simp only [ofTape, Tape.layout, h1, h2]

section Calls

variable {t : Tape Byte}

theorem consume_ofTape (n : Nat) : (ofTape t).consume n = ofTape (t.skip n) := by
  rw [consume, unread_ofTape]
  split
  · rename_i h
    rw [Tape.skip_of_lt h, ofTape, ofTape, Tape.layout, Tape.layout, List.append_assoc,
      List.take_append_drop, List.length_append, List.length_take, Nat.min_eq_left (by omega)]
  · rename_i h
    rw [Tape.skip_of_le (by omega)]
    rfl

theorem write_ofTape (bytes : List Byte) : (ofTape t).write bytes = ofTape (t.append bytes) := by
  simp [ofTape, write, Tape.append, Tape.layout]

theorem append_ofTape {b : CDataStream} (hb : b.Valid) :
    (ofTape t).append b = .ok (ofTape (t.append b.unread)) := by
  have hv : b.nReadPos ≤ b.vch.length := hb
  rw [CDataStream.append, if_pos hv]
  exact congrArg Outcome.ok (write_ofTape b.unread)

theorem read_ofTape {n : Nat} (hlen : t.layout.length < 2 ^ 31) (h : t.past.length + n < 2 ^ 32) :
    (ofTape t).read n = .ok (padTake n t.rest, ofTape (t.skip n)) := by
  rw [read_ok (valid_ofTape t) (by rw [vch_ofTape]; omega) h, unread_ofTape, consume_ofTape]

theorem ignore_ofTape {n : Nat} (hlen : t.layout.length < 2 ^ 31) (hn : n < 2 ^ 31)
    (h : t.past.length = 0 ∨ t.past.length + n ≠ t.layout.length) :
    (ofTape t).ignore n = ofTape (t.skip n) := by
  have hl := t.layout_length
  have hmod : (((t.past.length : Int) + n) % 2 ^ 32).toNat = t.past.length + n := by omega
  rw [← consume_ofTape, ignore, nReadPos_ofTape, vch_ofTape, hmod, consume, unread_ofTape]
  by_cases hlt : n < t.rest.length
  · rw [if_neg (by omega), if_pos hlt]
    rfl
  · rw [if_pos (by omega), if_neg hlt]
    split
    · rfl
    · rw [show t.past.length = 0 by omega]

/-- The buffer is cleared, the read position is not. -/
theorem ignore_to_end {n : Nat} (hlen : t.layout.length < 2 ^ 31)
    (h : t.past.length + n = t.layout.length) :
    (ofTape t).ignore n = ⟨[], t.past.length⟩ := by
  have hmod : (((t.past.length : Int) + n) % 2 ^ 32).toNat = t.past.length + n := by omega
  rw [ignore, nReadPos_ofTape, vch_ofTape, hmod, if_pos (by omega), if_neg (by omega)]

theorem vchInsert_ofTape {i : Nat} (bytes : List Byte) (hi : i ≤ t.rest.length) :
    (ofTape t).vchInsert (t.past.length + i) bytes = .ok (ofTape (t.insert i bytes)) := by
  have hl := t.layout_length
  rw [vchInsert, vch_ofTape, if_pos (by omega), Tape.layout, List.take_length_add_append,
    List.drop_length_add_append]
  simp [ofTape, Tape.insert, Tape.layout]

theorem vchErase_ofTape {i j : Nat} (hij : i ≤ j) (hj : j ≤ t.rest.length) :
    (ofTape t).vchErase (t.past.length + i) (t.past.length + j) = .ok (ofTape (t.erase i j)) := by
  have hl := t.layout_length
  rw [vchErase, vch_ofTape, if_pos (by omega), Tape.layout, List.take_length_add_append,
    List.drop_length_add_append]
  simp [ofTape, Tape.erase, Tape.layout]

/-- Inserting at the front without moving anything: the bytes replace the last consumed ones. -/
theorem insertRange_front {bytes : List Byte} (h32 : bytes.length < 2 ^ 31)
    (h : bytes.length ≤ t.past.length) :
    (ofTape t).insertRange t.past.length bytes = .ok (ofTape (t.prepend bytes)) := by
  have hl := t.layout_length
  have hmod : bytes.length % 2 ^ 32 = bytes.length := Nat.mod_eq_of_lt (by omega)
  rw [insertRange, nReadPos_ofTape, vch_ofTape, hmod, if_pos ⟨rfl, h⟩, if_pos (by omega),
    Tape.layout, show t.past.length - bytes.length + bytes.length = t.past.length by omega,
    List.drop_left, List.take_append_of_le_length (by omega)]
  simp [ofTape, Tape.prepend, Tape.layout, h]

theorem insertRange_ofTape {i : Nat} {bytes : List Byte} (hi : i ≤ t.rest.length)
    (h32 : bytes.length < 2 ^ 31) :
    (ofTape t).insertRange (t.past.length + i) bytes =
      .ok (ofTape (if i = 0 then t.prepend bytes else t.insert i bytes)) := by
  have hmod : bytes.length % 2 ^ 32 = bytes.length := Nat.mod_eq_of_lt (by omega)
  by_cases h0 : i = 0
  · subst h0
    rw [if_pos rfl, Nat.add_zero]
    by_cases h : bytes.length ≤ t.past.length
    · exact insertRange_front h32 h
    · rw [insertRange, nReadPos_ofTape, hmod, if_neg fun h' => h h'.2]
      have := vchInsert_ofTape bytes (Nat.zero_le t.rest.length)
      simpa [Tape.prepend, Tape.insert, h] using this
  · rw [if_neg h0, insertRange, nReadPos_ofTape, if_neg fun h => h0 (by omega)]
    exact vchInsert_ofTape bytes hi

theorem eraseOne_ofTape {i : Nat} (hlen : t.layout.length < 2 ^ 31) (hi : i < t.rest.length) :
    (ofTape t).eraseOne (t.past.length + i) =
      .ok (ofTape (if i = 0 then t.skip 1 else t.erase i (i + 1))) := by
  have hl := t.layout_length
  by_cases h0 : i = 0
  · subst h0
    rw [if_pos rfl, ← consume_ofTape, eraseOne, nReadPos_ofTape, vch_ofTape, Nat.add_zero,
      if_pos rfl, Nat.mod_eq_of_lt (by omega), consume, unread_ofTape]
    by_cases hlt : 1 < t.rest.length
    · rw [if_neg (by omega), if_pos hlt]
      rfl
    · rw [if_pos (by omega), if_neg hlt]
  · rw [if_neg h0, eraseOne, nReadPos_ofTape, vch_ofTape, if_neg (by omega), if_pos (by omega)]
    exact vchErase_ofTape (Nat.le_succ i) hi

theorem eraseRange_ofTape {i j : Nat} (hlen : t.layout.length < 2 ^ 31) (hij : i ≤ j)
    (hj : j ≤ t.rest.length) :
    (ofTape t).eraseRange (t.past.length + i) (t.past.length + j) =
      .ok (ofTape (if i = 0 then t.skip j else t.erase i j)) := by
  have hl := t.layout_length
  by_cases h0 : i = 0
  · subst h0
    rw [if_pos rfl, ← consume_ofTape, eraseRange, nReadPos_ofTape, vch_ofTape, Nat.add_zero,
      if_pos rfl, consume, unread_ofTape]
    by_cases hlt : j < t.rest.length
    · rw [if_neg (by omega), if_pos hlt, Nat.mod_eq_of_lt (by omega)]
      rfl
    · rw [if_pos (by omega), if_neg hlt]
  · rw [if_neg h0, eraseRange, nReadPos_ofTape, if_neg (by omega)]
    exact vchErase_ofTape hij hj

theorem compact_ofTape : (ofTape t).compact = .ok (ofTape t.compact) := by
  have hl := t.layout_length
  rw [CDataStream.compact, vchErase, vch_ofTape, nReadPos_ofTape, if_pos (by omega),
    Outcome.ok_bind, Tape.layout, List.drop_left]
  rfl

theorem rewind_ofTape (n : Nat) :
    (ofTape t).rewind n =
      if n ≤ t.past.length then (true, ofTape (t.rewind n)) else (false, ofTape t) := by
  rw [CDataStream.rewind, nReadPos_ofTape]
  by_cases h : n ≤ t.past.length
  · rw [if_neg (by omega), if_pos h]
    rw [ofTape, ofTape, Tape.layout_rewind]
    simp [Tape.rewind]
  · rw [if_pos (by omega), if_neg h]

theorem resize_ofTape {n : Nat} (c : Byte) (hlen : t.layout.length < 2 ^ 31) (hn : n < 2 ^ 31) :
    (ofTape t).resize n c = ofTape { t with rest := resizeTo t.rest n c } := by
  have hl := t.layout_length
  rw [resize, nReadPos_ofTape, vch_ofTape, Nat.mod_eq_of_lt (by omega), resizeTo, Tape.layout,
    Nat.add_comm n, List.take_length_add_append, List.length_append, Nat.add_sub_add_left]
  simp [ofTape, Tape.layout, resizeTo]

theorem getAndClear_ofTape : (ofTape t).getAndClear = .ok (t.rest, ofTape ⟨[], []⟩) := by
  have hv : (ofTape t).nReadPos ≤ (ofTape t).vch.length := valid_ofTape t
  rw [getAndClear, if_pos hv, unread_ofTape]
  rfl

/-- Every regular call commutes with the representation. -/
theorem exec_ofTape {op : Op} (hlen : t.layout.length < 2 ^ 31) (hr : (ofTape t).InRange op)
    (hreg : (ofTape t).Regular op) :
    (ofTape t).exec op = .ok ((op.onTape t).1, ofTape (op.onTape t).2) := by
  obtain ⟨hr, _⟩ := hr
  cases op with
  | write bytes => simp [exec, Op.onTape, write_ofTape]
  | append b => simp [exec, Op.onTape, append_ofTape hr]
  | read n => simp [exec, Op.onTape, read_ofTape hlen hreg]
  | ignore n => simp [exec, Op.onTape, ignore_ofTape hlen hr (hreg.imp_left id)]
  | eraseOne i =>
    rw [ArgsInRange, unread_ofTape] at hr
    simp [exec, Op.onTape, eraseOne_ofTape hlen hr]
  | eraseRange i j =>
    rw [ArgsInRange, unread_ofTape] at hr
    simp [exec, Op.onTape, eraseRange_ofTape hlen hr.1 hr.2]
  | insertOne i x =>
    rw [ArgsInRange, unread_ofTape] at hr
    simp [exec, Op.onTape, insertOne, vchInsert_ofTape [x] hr]
  | insertFill i n x =>
    rw [ArgsInRange, unread_ofTape] at hr
    simp [exec, Op.onTape, insertFill, vchInsert_ofTape (List.replicate n x) hr]
  | insertRange i bytes =>
    rw [ArgsInRange, unread_ofTape] at hr
    simp [exec, Op.onTape, insertRange_ofTape hr.1 hr.2]
  | compact => simp [exec, Op.onTape, compact_ofTape]
  | rewind n =>
    simp only [exec, Op.onTape, rewind_ofTape]
    split <;> rfl
  | resize n c => simp [exec, Op.onTape, resize_ofTape c hlen hr]
  | clear => rfl
  | getAndClear => simp [exec, Op.onTape, getAndClear_ofTape]

/-- An irregular call is undefined or leaves a stream that is not valid. -/
theorem exec_irregular {op : Op} (hlen : t.layout.length < 2 ^ 31) (hr : (ofTape t).InRange op)
    (hreg : ¬ (ofTape t).Regular op) {o : Out} {s' : CDataStream}
    (h : (ofTape t).exec op = .ok (o, s')) : ¬ s'.Valid := by
  obtain ⟨hr, _⟩ := hr
  cases op with
  | read n =>
    have hwrap : (ofTape t).read n = .undef .outOfBounds :=
      read_wrap (valid_ofTape t) (by rw [vch_ofTape]; omega) hr (Nat.le_of_not_lt hreg)
    rw [exec, hwrap] at h
    cases h
  | ignore n =>
    simp only [Regular, nReadPos_ofTape, vch_ofTape, not_or, not_not] at hreg
    rw [exec, ignore_to_end hlen hreg.2] at h
    cases h
    show ¬ t.past.length ≤ 0
    omega
  | _ => exact absurd trivial hreg

end Calls

/-! ## Sequences of calls -/

/-- A sequence does what it does on the tape, and ends in a valid stream. -/
def Refines (t : Tape Byte) (ops : List Op) : Prop :=
  ∃ outs s, (ofTape t).run ops = .ok (outs, s) ∧ s.Valid ∧
    onTape t ops = (outs, ⟨s.past, s.unread⟩)

theorem refines_nil (t : Tape Byte) : Refines t [] :=
  ⟨[], ofTape t, rfl, valid_ofTape t, by rw [past_ofTape, unread_ofTape]; rfl⟩

theorem refines_cons {t : Tape Byte} {op : Op}
    (h : (ofTape t).exec op = .ok ((op.onTape t).1, ofTape (op.onTape t).2)) (ops : List Op) :
    Refines t (op :: ops) ↔ Refines (op.onTape t).2 ops := by
  simp only [Refines, run, onTape, h, Outcome.ok_bind]
  constructor
  · rintro ⟨outs, s, hr, hs, ht⟩
    obtain ⟨⟨os, s'⟩, hr', he⟩ := Outcome.bind_eq_ok.mp hr
    cases he
    refine ⟨os, s', hr', hs, ?_⟩
    have h1 := congrArg Prod.fst ht
    have h2 := congrArg Prod.snd ht
    exact Prod.ext (List.cons.inj h1).2 h2
  · rintro ⟨outs, s, hr, hs, ht⟩
    refine ⟨(op.onTape t).1 :: outs, s, ?_, hs, ?_⟩
    · rw [hr]
      rfl
    · rw [ht]

theorem refines_iff (ops : List Op) : ∀ (t : Tape Byte), t.layout.length < 2 ^ 31 →
    (ofTape t).Along InRange ops →
    ((∀ ops', ops' <+: ops → Refines t ops') ↔ (ofTape t).Along Regular ops) := by
  induction ops with
  | nil =>
    intro t _ _
    refine ⟨fun _ => trivial, fun _ ops' h => ?_⟩
    rw [List.prefix_nil.mp h]
    exact refines_nil t
  | cons op ops ih =>
    rintro t hlen ⟨hr, hnext⟩
    by_cases hreg : (ofTape t).Regular op
    · have hstep := exec_ofTape hlen hr hreg
      have ih' := ih (op.onTape t).2 (hr.2 _ hstep) (hnext _ hstep)
      constructor
      · intro h
        refine ⟨hreg, fun r hr' => ?_⟩
        rw [hstep] at hr'
        cases hr'
        refine ih'.mp fun ops' hp => (refines_cons hstep ops').mp (h _ ?_)
        exact List.cons_prefix_cons.mpr ⟨rfl, hp⟩
      · rintro ⟨_, hal⟩ ops' hp
        cases ops' with
        | nil => exact refines_nil t
        | cons op' ops' =>
          obtain ⟨rfl, hp'⟩ := List.cons_prefix_cons.mp hp
          exact (refines_cons hstep ops').mpr (ih'.mpr (hal _ hstep) ops' hp')
    · refine ⟨fun h => ?_, fun h => absurd h.1 hreg⟩
      obtain ⟨outs, s, hrun, hs, _⟩ := h [op] (List.cons_prefix_cons.mpr ⟨rfl, List.nil_prefix⟩)
      obtain ⟨⟨o, s'⟩, hex, hrun⟩ := Outcome.bind_eq_ok.mp hrun
      cases hrun
      exact absurd hs (exec_irregular hlen hr hreg hex)

/-- **Queue refinement.** From any constructor: every reachable state is valid and everything
agrees with the tape, exactly as long as all calls are regular. -/
theorem queue_refinement (bytes : List Byte) (ops : List Op) (hb : bytes.length < 2 ^ 31)
    (hr : (CDataStream.init bytes).Along InRange ops) :
    (∀ ops', ops' <+: ops →
      ∃ outs s, (CDataStream.init bytes).run ops' = .ok (outs, s) ∧ s.Valid ∧
        onTape ⟨[], bytes⟩ ops' = (outs, ⟨s.past, s.unread⟩)) ↔
      (CDataStream.init bytes).Along Regular ops :=
  refines_iff ops ⟨[], bytes⟩ hb hr

/-- An instance: consume, append, insert over consumed bytes, rewind, drain. -/
theorem queue_refinement_run :
    ∃ outs s, (CDataStream.init [1, 2, 3, 4]).run
        [.read 3, .write [5], .insertRange 0 [9], .rewind 2, .ignore 4, .getAndClear] =
          .ok (outs, s) ∧ s.Valid ∧
      onTape ⟨[], [1, 2, 3, 4]⟩
        [.read 3, .write [5], .insertRange 0 [9], .rewind 2, .ignore 4, .getAndClear] =
          (outs, ⟨s.past, s.unread⟩) :=
  (queue_refinement [1, 2, 3, 4]
    [.read 3, .write [5], .insertRange 0 [9], .rewind 2, .ignore 4, .getAndClear]
    (by decide) (by decide)).mpr (by decide) _ (List.prefix_refl _)

/-- One byte read, one byte ignored: the buffer is empty and the read position is 1. -/
theorem ignore_last_invalid :
    (CDataStream.init [1, 2]).Along InRange [.read 1, .ignore 1] ∧
      (CDataStream.init [1, 2]).run [.read 1, .ignore 1] =
        .ok ([.bytes [1], .nothing], ⟨[], 1⟩) ∧
      ¬ (CDataStream.mk [] 1).Valid := by decide

end Serialize
end Huicpp
