import Mathlib
import Huicpp.Cxx.Block
import Huicpp.Net.HSocket

/-!
# Net.ReadAll

`HSocket::ReadAllWithTimeout`, which reads until a read brings nothing. The writing loops stop when
nothing is left to send; this one asks `select` and `read` once more when nothing is left to receive.

* `readAllStep_spec`: one iteration takes what is delivered, or ends the call.
* `readAll_spec`: the result and the buffer are right wherever the call is defined.
* `readAll_exact_iff`: it does not wait for more when the bytes it was asked for do not come.
-/

namespace Huicpp
namespace Net

open Cxx

/-- What a read of at most `n` bytes comes to. -/
inductive ReadAnswer (n : Nat) where
  | delivered (bytes : List Byte) (h : 0 < bytes.length ∧ bytes.length ≤ n)
  | endOfStream
  | failed
  deriving DecidableEq, Repr

/-- What the system answers in one iteration. -/
structure ReadTurn where
  select : SelectAnswer
  read : (n : Nat) → ReadAnswer n

inductive SysCall where
  | select
  | read (nbyte : Nat)
  deriving DecidableEq, Repr

/-- A call to the system, and how many bytes had been delivered before. -/
structure Asked where
  before : Nat
  call : SysCall
  deriving DecidableEq, Repr

/-- The memory at `buf`, and what passes between the call and the system. -/
structure Wire where
  block : ByteBlock
  delivered : List Byte
  calls : List Asked
  deriving DecidableEq, Repr

def Wire.ask (w : Wire) (call : SysCall) : Wire :=
  { w with calls := w.calls ++ [⟨w.delivered.length, call⟩] }

/-- A buffer with room for the bytes that are asked for, of which there is at least one. -/
structure ReadBuffer where
  block : ByteBlock
  nbyte : Nat
  room : nbyte ≤ block.length
  pos : 0 < nbyte

/-- `iofd_in::Read`. -/
def ReadTurn.readFrom (t : ReadTurn) (fd : Int) (pos nbyte : Nat) (w : Wire) :
    Outcome (SockResult × Wire) :=
  if isGoodSocket fd then
    match t.read nbyte with
    | .delivered bytes _ => do
      let block ← storeAt w.block pos (bytes.map some)
      pure (.returned bytes.length,
        { w.ask (.read nbyte) with block := block, delivered := w.delivered ++ bytes })
    | .endOfStream => pure (.returned 0, w.ask (.read nbyte))
    | .failed => pure (.returned (-1), w.ask (.read nbyte))
  else pure (.returned (-1), w)

def readWithTimeOut (fd timeout : Int) (t : ReadTurn) (pos nbyte : Nat) (w : Wire) :
    Outcome (SockResult × Wire) :=
  if isGoodSocket fd then
    if 0 < timeout then do
      match ← selectFor fd timeout t.select with
      | .timeOut => pure (.threw "read all time out", w.ask .select)
      | .failed => pure (.threw "select failed", w.ask .select)
      | .ready => t.readFrom fd pos nbyte (w.ask .select)
    else t.readFrom fd pos nbyte w
  else pure (.threw (notGoodSocket fd), w)

/-- The variables of the loop, `pos` relative to the buffer. -/
structure Reading where
  ret : Int
  pos : Nat
  tempNbyte : Nat
  turn : Nat
  wire : Wire

/-- One iteration. An exception ends the call as an empty read does. -/
def readAllStep (fd timeout : Int) (turns : Nat → ReadTurn) (s : Reading) :
    Outcome (Ctl Reading (Int × Wire)) := do
  let (r, w) ← readWithTimeOut fd timeout (turns s.turn) s.pos s.tempNbyte s.wire
  match r with
  | .returned cb =>
    if 0 < cb then
      pure (.again ⟨s.ret + cb, s.pos + cb.toNat, s.tempNbyte - cb.toNat, s.turn + 1, w⟩)
    else pure (.exit (s.ret, w))
  | .threw _ => pure (.exit (s.ret, w))

def readAllWithTimeout (fd : Int) (b : ReadBuffer) (timeout : Int) (turns : Nat → ReadTurn) :
    Prog (Int × Wire) :=
  Prog.loopOf (readAllStep fd timeout turns) ⟨0, 0, b.nbyte, 0, ⟨b.block, [], []⟩⟩

/-- The result is the number of bytes delivered, and the buffer begins with them and is otherwise
as it was. -/
structure Received (b : ReadBuffer) (ret : Int) (w : Wire) : Prop where
  ret : ret = w.delivered.length
  delivered_le : w.delivered.length ≤ b.nbyte
  block : w.block = w.delivered.map some ++ b.block.drop w.delivered.length

/-- The system was only asked for something while bytes were missing. -/
def AskedEarly (b : ReadBuffer) (calls : List Asked) : Prop := ∀ c ∈ calls, c.before < b.nbyte

/-- The call receives exactly, and returns without asking for more. -/
def ReadsExactly (b : ReadBuffer) (call : Prog (Int × Wire)) : Prop :=
  ∃ ret w, call.Returns (ret, w) ∧ Received b ret w ∧ AskedEarly b w.calls

/-- This turn delivers `bytes` to a read of at most `n`. -/
def Delivers (timeout : Int) (t : ReadTurn) (n : Nat) (bytes : List Byte) : Prop :=
  (0 < timeout → t.select = .ready) ∧ ∃ h, t.read n = .delivered bytes h

/-- The turns from `i` on deliver all `n` bytes. -/
inductive Fills (timeout : Int) (turns : Nat → ReadTurn) : Nat → Nat → Prop where
  | done {i : Nat} : Fills timeout turns i 0
  | more {i n : Nat} {bytes : List Byte} : Delivers timeout (turns i) n bytes →
      Fills timeout turns (i + 1) (n - bytes.length) → Fills timeout turns i n

/-! ## The answers -/

section Answers

variable {timeout : Int} {turns : Nat → ReadTurn} {i n : Nat}

theorem Delivers.bounds {t : ReadTurn} {bytes : List Byte} (h : Delivers timeout t n bytes) :
    0 < bytes.length ∧ bytes.length ≤ n := h.2.1

theorem Delivers.unique {t : ReadTurn} {bytes bytes' : List Byte} (h : Delivers timeout t n bytes)
    (h' : Delivers timeout t n bytes') : bytes = bytes' := by
  obtain ⟨_, hb, hread⟩ := h
  obtain ⟨_, hb', hread'⟩ := h'
  rw [hread] at hread'
  exact ReadAnswer.delivered.inj hread'

theorem Delivers.fills_iff {bytes : List Byte} (h : Delivers timeout (turns i) n bytes) :
    Fills timeout turns i n ↔ Fills timeout turns (i + 1) (n - bytes.length) := by
  constructor
  · intro hfills
    cases hfills with
    | done => exact absurd h.bounds.1 (by have := h.bounds.2; omega)
    | more h' hrest =>
      rw [h.unique h']
      exact hrest
  · exact .more h

theorem fills_iff_of_not_delivers (h : ∀ bytes, ¬ Delivers timeout (turns i) n bytes) :
    Fills timeout turns i n ↔ n = 0 := by
  constructor
  · intro hfills
    cases hfills with
    | done => rfl
    | more h' _ => exact absurd h' (h _)
  · rintro rfl
    exact .done

end Answers

/-! ## The loop -/

section Loop

variable {fd timeout : Int} {b : ReadBuffer} {turns : Nat → ReadTurn} {s : Reading}

/-- The invariant: what was received, where the pointer is and how much is left. -/
structure Advanced (b : ReadBuffer) (s : Reading) : Prop where
  received : Received b s.ret s.wire
  pos : s.pos = s.wire.delivered.length
  left : s.tempNbyte + s.wire.delivered.length = b.nbyte

/-- Calls were made, when so many bytes had been delivered. -/
def AsksAt (k : Nat) (calls calls' : List Asked) : Prop :=
  ∃ new, new ≠ [] ∧ calls' = calls ++ new ∧ ∀ c ∈ new, c.before = k

theorem AsksAt.early_iff {k : Nat} {calls calls' : List Asked} (h : AsksAt k calls calls') :
    AskedEarly b calls' ↔ AskedEarly b calls ∧ k < b.nbyte := by
  obtain ⟨new, hne, rfl, hnew⟩ := h
  constructor
  · intro hall
    obtain ⟨c, hc⟩ := List.exists_mem_of_ne_nil new hne
    refine ⟨fun c' hc' => hall c' (List.mem_append_left _ hc'), ?_⟩
    rw [← hnew c hc]
    exact hall c (List.mem_append_right _ hc)
  · rintro ⟨hold, hk⟩ c hc
    rcases List.mem_append.mp hc with hc | hc
    · exact hold c hc
    · rw [hnew c hc]
      exact hk

theorem asksAt_ask (w : Wire) (call : SysCall) :
    AsksAt w.delivered.length w.calls (w.ask call).calls :=
  ⟨[_], by simp, rfl, by simp⟩

theorem AsksAt.ask {w w' : Wire} (h : AsksAt w.delivered.length w.calls w'.calls)
    (hsame : w'.delivered = w.delivered) (call : SysCall) :
    AsksAt w.delivered.length w.calls (w'.ask call).calls := by
  obtain ⟨new, _, hcalls, hnew⟩ := h
  refine ⟨new ++ [⟨w'.delivered.length, call⟩], by simp, ?_, fun c hc => ?_⟩
  · rw [Wire.ask, hcalls, List.append_assoc]
  · rcases List.mem_append.mp hc with hc | hc
    · exact hnew c hc
    · obtain rfl := List.mem_singleton.mp hc
      rw [hsame]

/-- The bytes came in. -/
structure Took (pos : Nat) (w : Wire) (bytes : List Byte) (w' : Wire) : Prop where
  stored : storeAt w.block pos (bytes.map some) = .ok w'.block
  delivered : w'.delivered = w.delivered ++ bytes
  asked : AsksAt w.delivered.length w.calls w'.calls

/-- Nothing came in, and the result does not let the loop go on. -/
structure TookNothing (w : Wire) (r : SockResult) (w' : Wire) : Prop where
  same : w'.block = w.block ∧ w'.delivered = w.delivered
  asked : AsksAt w.delivered.length w.calls w'.calls
  stops : ∀ cb, r = .returned cb → cb ≤ 0

/-- What a read on the wire `w` may come to. -/
def Answered (timeout : Int) (t : ReadTurn) (pos nbyte : Nat) (w : Wire)
    (o : Outcome (SockResult × Wire)) : Prop :=
  (∃ bytes w', Delivers timeout t nbyte bytes ∧ Took pos w bytes w' ∧
    o = .ok (.returned bytes.length, w')) ∨
  (∀ bytes, ¬ Delivers timeout t nbyte bytes) ∧ ∃ r w', TookNothing w r w' ∧ o = .ok (r, w')

/-- A read takes what is delivered, or brings nothing. `w'` is the wire after `select`. -/
theorem readFrom_spec (hgood : isGoodSocket fd = true) {t : ReadTurn} {pos nbyte : Nat} {w w' : Wire}
    (hroom : pos + nbyte ≤ w.block.length) (hselect : 0 < timeout → t.select = .ready)
    (hsame : w'.block = w.block ∧ w'.delivered = w.delivered)
    (hasked : ∀ call, AsksAt w.delivered.length w.calls (w'.ask call).calls) :
    Answered timeout t pos nbyte w (t.readFrom fd pos nbyte w') := by
  rw [ReadTurn.readFrom, if_pos hgood]
  cases hread : t.read nbyte with
  | delivered bytes h =>
    have hfits : pos + (bytes.map some).length ≤ w.block.length := by
      rw [List.length_map]
      omega
    obtain ⟨block, hstore⟩ : ∃ block, storeAt w.block pos (bytes.map some) = .ok block :=
      ⟨_, if_pos hfits⟩
    refine .inl ⟨bytes, ⟨block, w.delivered ++ bytes, (w'.ask (.read nbyte)).calls⟩,
      ⟨hselect, h, hread⟩, ⟨hstore, rfl, hasked _⟩, ?_⟩
    simp only [hsame.1, hstore, Outcome.ok_bind, hsame.2]
    rfl
  | endOfStream =>
    refine .inr ⟨fun bytes hb => ?_, .returned 0, w'.ask (.read nbyte), ⟨hsame, hasked _, ?_⟩, rfl⟩
    · exact nomatch hread.symm.trans hb.2.2
    · rintro cb ⟨⟩
      decide
  | failed =>
    refine .inr ⟨fun bytes hb => ?_, .returned (-1), w'.ask (.read nbyte), ⟨hsame, hasked _, ?_⟩, rfl⟩
    · exact nomatch hread.symm.trans hb.2.2
    · rintro cb ⟨⟩
      decide

theorem answered_threw {t : ReadTurn} {pos nbyte : Nat} {w : Wire} (hpos : 0 < timeout)
    (hselect : t.select ≠ .ready) (what : String) :
    Answered timeout t pos nbyte w (.ok (.threw what, w.ask .select)) :=
  .inr ⟨fun _ hb => hselect (hb.1 hpos), .threw what, w.ask .select,
    ⟨⟨rfl, rfl⟩, asksAt_ask w .select, fun _ => nofun⟩, rfl⟩

theorem readWithTimeOut_spec (hgood : isGoodSocket fd = true) (hsel : Selectable fd timeout)
    (t : ReadTurn) {pos nbyte : Nat} {w : Wire} (hroom : pos + nbyte ≤ w.block.length) :
    Answered timeout t pos nbyte w (readWithTimeOut fd timeout t pos nbyte w) := by
  rw [readWithTimeOut, if_pos hgood]
  by_cases hpos : 0 < timeout
  · rw [if_pos hpos, selectFor_waits (hsel hpos) hpos, Outcome.ok_bind]
    cases hselect : t.select with
    | timeOut => exact answered_threw hpos (by rw [hselect]; decide) _
    | failed => exact answered_threw hpos (by rw [hselect]; decide) _
    | ready =>
      exact readFrom_spec hgood hroom (fun _ => hselect) ⟨rfl, rfl⟩
        (AsksAt.ask (asksAt_ask w .select) rfl)
  · rw [if_neg hpos]
    exact readFrom_spec hgood hroom (fun h => absurd h hpos) ⟨rfl, rfl⟩ (asksAt_ask w)

theorem Advanced.take (h : Advanced b s) {bytes : List Byte} {w : Wire} {ret : Int} {pos left turn : Nat}
    (hlen : bytes.length ≤ s.tempNbyte) (htook : Took s.pos s.wire bytes w)
    (hret : ret = s.ret + bytes.length) (hpos : pos = s.pos + bytes.length)
    (hleft : left = s.tempNbyte - bytes.length) : Advanced b ⟨ret, pos, left, turn, w⟩ := by
  obtain ⟨hreceived, hat, hmore⟩ := h
  have hdelivered : w.delivered.length = s.wire.delivered.length + bytes.length := by
    rw [htook.delivered, List.length_append]
  have hblock : w.block = w.delivered.map some ++ b.block.drop w.delivered.length := by
    obtain ⟨_, hstored⟩ := storeAt_eq_ok.mp htook.stored
    have hfront : s.pos = (s.wire.delivered.map some).length := by rw [hat, List.length_map]
    rw [hreceived.block, hfront, List.take_left, List.drop_length_add_append, List.drop_drop,
      List.length_map] at hstored
    rw [← hstored, hdelivered, htook.delivered, List.map_append]
  refine ⟨⟨?_, ?_, hblock⟩, ?_, ?_⟩
  · show ret = w.delivered.length
    rw [hret, hreceived.ret, hdelivered]
    exact (Nat.cast_add _ _).symm
  · show w.delivered.length ≤ b.nbyte
    omega
  · show pos = w.delivered.length
    rw [hpos, hat, hdelivered]
  · show left + w.delivered.length = b.nbyte
    omega

theorem Advanced.room (h : Advanced b s) : s.pos + s.tempNbyte ≤ s.wire.block.length := by
  have hroom := b.room
  have hleft := h.left
  rw [h.received.block, h.pos, List.length_append, List.length_map, List.length_drop]
  omega

/-- How an iteration that `Advanced` describes goes on, or ends. -/
theorem readAllStep_spec (hgood : isGoodSocket fd = true) (hsel : Selectable fd timeout)
    (h : Advanced b s) :
    (∃ bytes s', Delivers timeout (turns s.turn) s.tempNbyte bytes ∧ Advanced b s' ∧
      s'.turn = s.turn + 1 ∧ s'.tempNbyte = s.tempNbyte - bytes.length ∧
      AsksAt s.wire.delivered.length s.wire.calls s'.wire.calls ∧
      readAllStep fd timeout turns s = .ok (.again s')) ∨
    (∀ bytes, ¬ Delivers timeout (turns s.turn) s.tempNbyte bytes) ∧
      ∃ w, Received b s.ret w ∧ AsksAt s.wire.delivered.length s.wire.calls w.calls ∧
        readAllStep fd timeout turns s = .ok (.exit (s.ret, w)) := by
  rw [readAllStep]
  rcases @readWithTimeOut_spec fd timeout hgood hsel (turns s.turn) s.pos s.tempNbyte s.wire
    h.room with ⟨bytes, w, hdel, htook, hread⟩ | ⟨hnone, r, w, hnothing, hread⟩
  · have hlen := hdel.bounds
    have hpos : (0 : Int) < bytes.length := by omega
    refine .inl ⟨bytes, ⟨s.ret + bytes.length, s.pos + bytes.length, s.tempNbyte - bytes.length,
      s.turn + 1, w⟩, hdel, h.take hlen.2 htook rfl rfl rfl, rfl, rfl, htook.asked, ?_⟩
    rw [hread, Outcome.ok_bind]
    exact if_pos hpos
  · refine .inr ⟨hnone, w, ?_, hnothing.asked, ?_⟩
    · obtain ⟨hret, hle, hblock⟩ := h.received
      obtain ⟨hsame, hdel⟩ := hnothing.same
      exact ⟨by rw [hdel, hret], by rw [hdel]; exact hle, by rw [hdel, hsame, hblock]⟩
    · rw [hread, Outcome.ok_bind]
      cases r with
      | threw what => rfl
      | returned cb => exact if_neg (not_lt.mpr (hnothing.stops cb rfl))

theorem loop_spec (hgood : isGoodSocket fd = true) (hsel : Selectable fd timeout) (h : Advanced b s) :
    ∃ e, (Prog.loopOf (readAllStep fd timeout turns) s).Returns e ∧ Received b e.1 e.2 ∧
      (AskedEarly b e.2.calls ↔
        AskedEarly b s.wire.calls ∧ ¬ Fills timeout turns s.turn s.tempNbyte) := by
  refine Prog.Returns.loop_ends
    (fun t => Advanced b t ∧
      (AskedEarly b t.wire.calls ∧ ¬ Fills timeout turns t.turn t.tempNbyte ↔
        AskedEarly b s.wire.calls ∧ ¬ Fills timeout turns s.turn s.tempNbyte))
    (fun e : Int × Wire => Received b e.1 e.2 ∧ (AskedEarly b e.2.calls ↔
      AskedEarly b s.wire.calls ∧ ¬ Fills timeout turns s.turn s.tempNbyte))
    (fun t => t.tempNbyte) (fun t ⟨ht, hiff⟩ => ?_) s ⟨h, Iff.rfl⟩
  have hleft := ht.left
  rcases @readAllStep_spec fd timeout b turns t hgood hsel ht with
    ⟨bytes, t', hdel, ht', hturn, htemp, hasks, hstep⟩ | ⟨hnone, w, hw, hasks, hstep⟩
  · have hlen := hdel.bounds
    refine .inl ⟨t', hstep, ⟨ht', ?_⟩, by omega⟩
    have hmore : t.wire.delivered.length < b.nbyte := by omega
    rw [← hiff, hasks.early_iff, and_iff_left hmore, hdel.fills_iff, hturn, htemp]
  · refine .inr ⟨(t.ret, w), hstep, hw, ?_⟩
    rw [← hiff, hasks.early_iff, fills_iff_of_not_delivers hnone]
    have hmore : t.wire.delivered.length < b.nbyte ↔ ¬ t.tempNbyte = 0 := by omega
    rw [hmore]

theorem readAllStep_undef (hgood : isGoodSocket fd = true) (hsel : ¬ Selectable fd timeout) :
    readAllStep fd timeout turns s = .undef .outOfBounds := by
  have hpos : 0 < timeout := (Classical.not_imp.mp hsel).1
  rw [readAllStep, readWithTimeOut, if_pos hgood, if_pos hpos, selectFor_undef hsel]
  rfl

end Loop

/-- Where the call can wait for the socket it returns, and the result and the buffer are right. -/
theorem readAll_spec (fd : Int) (b : ReadBuffer) (timeout : Int) (turns : Nat → ReadTurn)
    (hdef : isGoodSocket fd = false ∨ Selectable fd timeout) :
    ∃ ret w, (readAllWithTimeout fd b timeout turns).Returns (ret, w) ∧ Received b ret w ∧
      (AskedEarly b w.calls ↔ isGoodSocket fd = false ∨ ¬ Fills timeout turns 0 b.nbyte) := by
  have hstart : Received b 0 ⟨b.block, [], []⟩ := ⟨rfl, Nat.zero_le _, rfl⟩
  have hnone : AskedEarly b [] := List.forall_mem_nil _
  cases hgood : isGoodSocket fd with
  | false =>
    refine ⟨0, ⟨b.block, [], []⟩, ?_, hstart, iff_of_true hnone (.inl rfl)⟩
    refine .loop_exit (.lift ?_)
    rw [readAllStep, readWithTimeOut, hgood]
    rfl
  | true =>
    have hsel : Selectable fd timeout := hdef.resolve_left (Bool.not_eq_false _ ▸ hgood)
    obtain ⟨⟨ret, w⟩, hrun, hw, hearly⟩ := @loop_spec fd timeout b turns
      ⟨0, 0, b.nbyte, 0, ⟨b.block, [], []⟩⟩ hgood hsel ⟨hstart, rfl, rfl⟩
    refine ⟨ret, w, hrun, hw, hearly.trans ?_⟩
    simp only [hnone, true_and, Bool.true_eq_false, false_or]

/-- **Complete receives.** What is received is exact and nothing is asked for once all of it has come,
exactly if the socket is not valid, or it can be waited for and the answers do not deliver all of it. -/
theorem readAll_exact_iff (fd : Int) (b : ReadBuffer) (timeout : Int) (turns : Nat → ReadTurn) :
    ReadsExactly b (readAllWithTimeout fd b timeout turns) ↔
      isGoodSocket fd = false ∨ Selectable fd timeout ∧ ¬ Fills timeout turns 0 b.nbyte := by
  by_cases hdef : isGoodSocket fd = false ∨ Selectable fd timeout
  · obtain ⟨ret, w, hrun, hw, hearly⟩ := readAll_spec fd b timeout turns hdef
    have hreads : ReadsExactly b (readAllWithTimeout fd b timeout turns) ↔ AskedEarly b w.calls := by
      constructor
      · rintro ⟨ret', w', hrun', _, hasked⟩
        obtain ⟨rfl, rfl⟩ := Prod.mk.inj (hrun.unique hrun')
        exact hasked
      · intro hasked
        exact ⟨ret, w, hrun, hw, hasked⟩
    rw [hreads, hearly]
    tauto
  · rw [not_or] at hdef
    refine iff_of_false ?_ fun h => h.elim hdef.1 fun h => hdef.2 h.1
    rintro ⟨ret, w, hrun, -⟩
    have hfault : (readAllWithTimeout fd b timeout turns).Faults .outOfBounds :=
      .loop_step (readAllStep_undef (Bool.eq_true_of_not_eq_false hdef.1) hdef.2)
    exact hfault.not_returns _ hrun

/-- One byte is asked for and comes with the first read. -/
def oneByte : ReadBuffer := ⟨[none], 1, by decide, by decide⟩

def deliversOne (_ : Nat) : ReadTurn where
  select := .ready
  read n := if h : 0 < n then .delivered [7] ⟨by decide, h⟩ else .endOfStream

/-- The call asks again, and `select` may let it wait. -/
theorem readAll_asks_again :
    ¬ ReadsExactly oneByte (readAllWithTimeout 3 oneByte 1500 deliversOne) := by
  rintro ⟨ret, w, hrun, _, hasked⟩
  obtain ⟨ret', w', hrun', _, hearly⟩ := readAll_spec 3 oneByte 1500 deliversOne (.inr (by decide))
  obtain ⟨rfl, rfl⟩ := Prod.mk.inj (hrun.unique hrun')
  refine (hearly.mp hasked).elim (by decide) fun hnot => hnot ?_
  exact .more ⟨fun _ => rfl, ⟨by decide, by decide⟩, rfl⟩ .done

end Net
end Huicpp
