import Mathlib
import Huicpp.Cxx.BlockingQueue
import Huicpp.Cxx.Memory

/-!
# Threads.SyncBuffer

`HSyncBuffer`: producers push byte strings, consumers take one or all of them. `PopData(ptr, len)`
takes the message with `PopData(vector)` first and looks at the caller's buffer afterwards, when the
message is in a local variable.
-/

namespace Huicpp
namespace Threads

open Cxx

abbrev HMEM : Type := List Byte

/-- The three ways to take data. `ptr` says whether the caller's buffer is there. -/
inductive PopCall where
  | popData
  | popDataPtr (ptr : Bool) (len : Int)
  | popAllData
  deriving DecidableEq, Repr

/-- How `PopData(ptr, len)` ends once it has the message. `overrun`: `memcpy` leaves the buffer. -/
inductive PopResult where
  | copied (mem : HMEM)
  | threw
  | overrun
  deriving DecidableEq, Repr

/-- `PopData(ptr, len)` after `PopData(mem)`. -/
def copyOut (ptr : Bool) (len : Int) (mem : HMEM) : PopResult :=
  if ¬ toHN mem.length ≤ len then .threw
  else if ¬ ptr then .threw
  else if (mem.length : Int) ≤ len then .copied mem
  else .overrun

/-- What the caller has afterwards. -/
def PopResult.received : PopResult → List HMEM
  | .copied mem => [mem]
  | _ => []

/-- The consumers `ι`, each with the call it is in; `handed` records what calls have returned. -/
structure HSyncBuffer (ι : Type) where
  datas : BlockingQueue ι HMEM
  call : ι → Option PopCall
  handed : List (ι × HMEM)

namespace HSyncBuffer

variable {ι : Type}

def init : HSyncBuffer ι where
  datas := .init
  call _ := none
  handed := []

inductive Action (ι : Type) where
  | queue (e : QueueEvent ι HMEM)
  | call (i : ι) (c : PopCall)
  | popDataPtr (i : ι) (mem : HMEM) (r : PopResult)
  deriving DecidableEq, Repr

/-- The part of an action that the queue sees. -/
def Action.event : Action ι → Option (QueueEvent ι HMEM)
  | .queue e => some e
  | .call _ _ => none
  | .popDataPtr i mem _ => some (.pop i [mem])

variable [DecidableEq ι]

/-- The call of `i` returns with the messages `mems`. -/
def return' (b : HSyncBuffer ι) (i : ι) (datas : BlockingQueue ι HMEM) (mems : List HMEM) :
    HSyncBuffer ι where
  datas := datas
  call := Function.update b.call i none
  handed := b.handed ++ mems.map fun mem => (i, mem)

inductive Step : HSyncBuffer ι → Action ι → HSyncBuffer ι → Prop where
  | pushData (b : HSyncBuffer ι) (mem : HMEM) (datas : BlockingQueue ι HMEM) :
      b.datas.Step (.push mem) datas → Step b (.queue (.push mem)) { b with datas := datas }
  | signal (b : HSyncBuffer ι) (datas : BlockingQueue ι HMEM) :
      b.datas.Step .signal datas → Step b (.queue .signal) { b with datas := datas }
  | call (b : HSyncBuffer ι) (i : ι) (c : PopCall) :
      b.call i = none → Step b (.call i c) { b with call := Function.update b.call i (some c) }
  | wait (b : HSyncBuffer ι) (i : ι) (c : PopCall) (datas : BlockingQueue ι HMEM) :
      b.call i = some c → b.datas.Step (.wait i) datas →
      Step b (.queue (.wait i)) { b with datas := datas }
  | wake (b : HSyncBuffer ι) (i : ι) (datas : BlockingQueue ι HMEM) :
      b.datas.Step (.wake i) datas → Step b (.queue (.wake i)) { b with datas := datas }
  | popData (b : HSyncBuffer ι) (i : ι) (mem : HMEM) (datas : BlockingQueue ι HMEM) :
      b.call i = some .popData → b.datas.Step (.pop i [mem]) datas →
      Step b (.queue (.pop i [mem])) (b.return' i datas [mem])
  | popDataPtr (b : HSyncBuffer ι) (i : ι) (ptr : Bool) (len : Int) (mem : HMEM)
      (datas : BlockingQueue ι HMEM) :
      b.call i = some (.popDataPtr ptr len) → b.datas.Step (.pop i [mem]) datas →
      Step b (.popDataPtr i mem (copyOut ptr len mem))
        (b.return' i datas (copyOut ptr len mem).received)
  | popAllData (b : HSyncBuffer ι) (i : ι) (datas : BlockingQueue ι HMEM) :
      b.call i = some .popAllData → b.datas.Step (.pop i b.datas.queue) datas →
      Step b (.queue (.pop i b.datas.queue)) (b.return' i datas b.datas.queue)

def system (ι : Type) [DecidableEq ι] : TransitionSystem (HSyncBuffer ι) (Action ι) where
  init b := b = init
  step := Step

/-- The messages an action pushes. -/
def Action.pushed (a : Action ι) : List HMEM :=
  match a.event with
  | some e => e.pushed
  | none => []

/-- Everything that was handed out, and then what is still queued. -/
def delivered (b : HSyncBuffer ι) : List HMEM := b.handed.map Prod.snd ++ b.datas.queue

/-- The buffer of a `PopData(ptr, len)` is there and takes the message that the call has taken. -/
def BufferFits (b : HSyncBuffer ι) (a : Action ι) (_ : HSyncBuffer ι) : Prop :=
  ∀ i mem r ptr len, a = .popDataPtr i mem r → b.call i = some (.popDataPtr ptr len) →
    ptr = true ∧ (mem.length : Int) ≤ len

/-- A `PopData(ptr, len)` that throws leaves the queue as it was. -/
def ThrowKeeps (b : HSyncBuffer ι) (a : Action ι) (b' : HSyncBuffer ι) : Prop :=
  ∀ i mem, a = .popDataPtr i mem .threw → b'.datas.queue = b.datas.queue

/-! ## The caller's buffer -/

theorem toHN_le (n : Nat) : toHN n ≤ n := by
  rw [toHN]
  omega

theorem copyOut_fits {len : Int} {mem : HMEM} (h : (mem.length : Int) ≤ len) :
    copyOut true len mem = .copied mem := by
  have hn := toHN_le mem.length
  rw [copyOut, if_neg (by omega), if_neg (by simp), if_pos h]

theorem copyOut_lost {ptr : Bool} {len : Int} {mem : HMEM}
    (h : ¬ (ptr = true ∧ (mem.length : Int) ≤ len)) : (copyOut ptr len mem).received = [] := by
  rw [copyOut]
  split
  · rfl
  · split
    · rfl
    · rename_i hptr
      rw [if_neg fun hlen => h ⟨by simpa using hptr, hlen⟩]
      rfl

/-! ## Delivery -/

theorem delivered_return (b : HSyncBuffer ι) (i : ι) (datas : BlockingQueue ι HMEM)
    (mems : List HMEM) :
    (b.return' i datas mems).delivered = b.handed.map Prod.snd ++ (mems ++ datas.queue) := by
  simp [delivered, return', Function.comp_def]

/-- A step that does not lose a message moves messages from the queue to the consumers, and appends
what is pushed. -/
theorem Step.fits {b b' : HSyncBuffer ι} {a : Action ι} (h : Step b a b')
    (hfits : BufferFits b a b') : b'.delivered = b.delivered ++ a.pushed := by
  refine Eq.trans ?_ (List.append_assoc _ _ _).symm
  cases h with
  | pushData mem datas hs => exact congrArg _ hs.balance.symm
  | signal datas hs => exact congrArg _ hs.balance.symm
  | call i c _ => exact congrArg _ (List.append_nil _).symm
  | wait i c datas _ hs => exact congrArg _ hs.balance.symm
  | wake i datas hs => exact congrArg _ hs.balance.symm
  | popData i mem datas _ hs =>
    rw [delivered_return]
    exact congrArg _ hs.balance.symm
  | popDataPtr i ptr len mem datas hcall hs =>
    obtain ⟨rfl, hlen⟩ := hfits i mem _ ptr len rfl hcall
    rw [delivered_return, copyOut_fits hlen]
    exact congrArg _ hs.balance.symm
  | popAllData i datas _ hs =>
    rw [delivered_return]
    exact congrArg _ hs.balance.symm

theorem Step.lost {b b' : HSyncBuffer ι} {a : Action ι} (h : Step b a b')
    (hfits : ¬ BufferFits b a b') : b'.delivered.length + 1 = (b.delivered ++ a.pushed).length := by
  simp only [BufferFits] at hfits
  push Not at hfits
  obtain ⟨i, mem, r, ptr, len, rfl, hcall, hbad⟩ := hfits
  cases h with
  | popDataPtr _ ptr' len' _ datas hcall' hs =>
    rw [hcall'] at hcall
    cases hcall
    have hbal := congrArg List.length hs.balance
    rw [delivered_return, copyOut_lost fun h => not_le_of_gt (hbad h.1) h.2]
    simp [delivered, Action.pushed, Action.event, QueueEvent.pushed, QueueEvent.popped] at hbal ⊢
    omega

theorem throwKeeps_of_fits {b b' : HSyncBuffer ι} {a : Action ι} (h : Step b a b')
    (hfits : BufferFits b a b') : ThrowKeeps b a b' := by
  rintro i mem rfl
  generalize hr : PopResult.threw = r at h
  cases h with
  | popDataPtr _ ptr len _ datas hcall hs =>
    obtain ⟨rfl, hlen⟩ := hfits i mem _ ptr len rfl hcall
    rw [copyOut_fits hlen] at hr
    cases hr

theorem fits_or_short {tr : List (Action ι)} {b : HSyncBuffer ι} (h : (system ι).Run tr b) :
    ((system ι).restrict BufferFits).Run tr b ∧ b.delivered = tr.flatMap Action.pushed ∨
      b.delivered.length < (tr.flatMap Action.pushed).length := by
  induction h with
  | @init b h =>
    refine .inl ⟨.init h, ?_⟩
    rw [show b = init from h]
    rfl
  | @step tr b b' a _ hs ih =>
    rw [List.flatMap_append, List.flatMap_singleton]
    by_cases hfits : BufferFits b a b'
    · have hstep := Step.fits hs hfits
      rcases ih with ⟨hrun, ih⟩ | ih
      · exact .inl ⟨.step hrun ⟨hs, hfits⟩, by rw [hstep, ih]⟩
      · refine .inr ?_
        rw [hstep]
        simp only [List.length_append]
        omega
    · have hstep := Step.lost hs hfits
      refine .inr ?_
      rw [List.length_append] at hstep ⊢
      rcases ih with ⟨_, ih⟩ | ih
      · rw [ih] at hstep
        omega
      · omega

/-- Every message pushed is handed to one consumer, in the order of the pushes, and no throw touches
the queue, exactly when every `PopData(ptr, len)` comes with a buffer for the message it takes. -/
theorem delivery_exact {tr : List (Action ι)} {b : HSyncBuffer ι} (h : (system ι).Run tr b) :
    (tr.flatMap Action.pushed = b.handed.map Prod.snd ++ b.datas.queue ∧
        ((system ι).restrict ThrowKeeps).Run tr b) ↔
      ((system ι).restrict BufferFits).Run tr b := by
  constructor
  · rintro ⟨hall, _⟩
    rcases fits_or_short h with hfits | hshort
    · exact hfits.1
    · rw [hall] at hshort
      exact absurd hshort (lt_irrefl _)
  · intro hfits
    refine ⟨?_, hfits.restrict_mono fun b a b' => throwKeeps_of_fits⟩
    refine hfits.invariant (fun tr b => tr.flatMap Action.pushed = b.delivered) ?_ ?_
    · rintro b rfl
      rfl
    · rintro tr b a b' ih ⟨hs, hfit⟩
      rw [List.flatMap_append, List.flatMap_singleton, ih, Step.fits hs hfit]

omit [DecidableEq ι] in
theorem bufferFits_queue (b b' : HSyncBuffer ι) (e : QueueEvent ι HMEM) :
    BufferFits b (.queue e) b' := by
  intro i mem r ptr len h
  cases h

omit [DecidableEq ι] in
theorem bufferFits_call (b b' : HSyncBuffer ι) (i : ι) (c : PopCall) :
    BufferFits b (.call i c) b' := by
  intro i mem r ptr len h
  cases h

/-- A buffer of four bytes takes a message of one byte. -/
theorem delivery_exact_oneByte : ∃ tr, ∃ b : HSyncBuffer Unit, (system Unit).Run tr b ∧
    tr.flatMap Action.pushed = b.handed.map Prod.snd ++ b.datas.queue ∧
    b.handed = [((), [7])] := by
  have h0 : ((system Unit).restrict BufferFits).Run [] init := .init rfl
  have h1 := h0.step ⟨.pushData _ [7] _ (.push _ [7]), bufferFits_queue _ _ _⟩
  have h2 := h1.step ⟨.call _ () (.popDataPtr true 4) rfl, bufferFits_call _ _ _ _⟩
  have h3 := h2.step ⟨.popDataPtr _ () true 4 [7] _ rfl (.popFront _ () [7] [] nofun rfl), by
    intro i mem r ptr len ha hcall
    cases ha
    cases hcall
    exact ⟨rfl, by decide⟩⟩
  exact ⟨_, _, h3.of_restrict, ((delivery_exact h3.of_restrict).mpr h3).1, rfl⟩

/-- With a buffer of no bytes the call throws, and the message is neither handed over nor queued. -/
theorem popDataPtr_loses : ¬ ∀ tr, ∀ b : HSyncBuffer Unit, (system Unit).Run tr b →
    tr.flatMap Action.pushed = b.handed.map Prod.snd ++ b.datas.queue ∧
      ((system Unit).restrict ThrowKeeps).Run tr b := by
  intro h
  have h0 : (system Unit).Run [] init := .init rfl
  have h1 := h0.step (Step.pushData _ [7] _ (.push _ [7]))
  have h2 := h1.step (Step.call _ () (.popDataPtr true 0) rfl)
  have h3 := h2.step (Step.popDataPtr _ () true 0 [7] _ rfl (.popFront _ () [7] [] nofun rfl))
  have hall := (h _ _ h3).1
  cases hall

end HSyncBuffer

end Threads
end Huicpp
