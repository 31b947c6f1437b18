import Mathlib
import Huicpp.Cxx.TransitionSystem

/-!
# LazySingleton.Get

`HLazySingleton::Get`, one atomic access at a time. A call goes from the cache of its call site to
the entry of its type and tag in `StaticSingletonHolderImpl`, where the holder is created, and from
the holder to the value. Both creations are double-checked. An object's address is the one `new`
returned, which no object has had before: nothing is ever deleted.

`holders` and `values` record the constructor calls that have begun, `holdersBuilt` and
`valuesBuilt` those that have returned, and `results` what `Get` has returned.
-/

namespace Huicpp
namespace LazySingleton

open Cxx

abbrev Addr : Type := Nat

inductive SingletonHolderState where
  | Dead
  | Living
  | LivingInChildAfterFork
  deriving DecidableEq, Repr

/-- `StaticSingletonHolderImpl::Entry`. -/
structure Entry (ι : Type) where
  ptr : Option Addr
  mutex : Option ι

/-- `LazySingletonHolder`. -/
structure Holder (ι : Type) where
  mutex : Option ι
  state : SingletonHolderState
  instance' : Option Addr

/-- Where a thread is in `Get` at the call site `c`; `p` is the holder, `v` the value. -/
inductive Pc (Site : Type) where
  | idle
  | loadCache (c : Site)
  | createEntry (c : Site)
  | loadPtr (c : Site)
  | lockEntry (c : Site)
  | reloadPtr (c : Site)
  | make (c : Site)
  | making (c : Site) (p : Addr)
  | storePtr (c : Site) (p : Addr)
  | unlockEntry (c : Site) (p : Addr)
  | storeCache (c : Site) (p : Addr)
  | loadState (c : Site) (p : Addr)
  | lockHolder (c : Site) (p : Addr)
  | reloadState (c : Site) (p : Addr)
  | newValue (c : Site) (p : Addr)
  | constructing (c : Site) (p v : Addr)
  | storeInstance (c : Site) (p v : Addr)
  | storeState (c : Site) (p v : Addr)
  | unlockHolder (c : Site) (p : Addr)
  | readInstance (c : Site) (p : Addr)
  | returned (c : Site) (r : Option Addr)
  | fault
  deriving DecidableEq, Repr

structure State (ι Site Key : Type) where
  cache : Site → Option Addr
  map : Key → Entry ι
  holder : Addr → Option (Holder ι)
  pc : ι → Pc Site
  holders : List (Key × Addr)
  holdersBuilt : List (Key × Addr)
  values : List (Key × Addr × Addr)
  valuesBuilt : List (Key × Addr × Addr)
  results : List (Site × Option Addr)

namespace State

variable {ι Site Key : Type} [DecidableEq ι] [DecidableEq Site] [DecidableEq Key]

/-- A key that is not in the map yet has an entry without holder, the one `m_map[key]` inserts. -/
def init : State ι Site Key where
  cache _ := none
  map _ := ⟨none, none⟩
  holder _ := none
  pc _ := .idle
  holders := []
  holdersBuilt := []
  values := []
  valuesBuilt := []
  results := []

def setPc (s : State ι Site Key) (i : ι) (pc : Pc Site) : State ι Site Key :=
  { s with pc := Function.update s.pc i pc }

def setEntry (s : State ι Site Key) (k : Key) (e : Entry ι) : State ι Site Key :=
  { s with map := Function.update s.map k e }

def setHolder (s : State ι Site Key) (p : Addr) (h : Holder ι) : State ι Site Key :=
  { s with holder := Function.update s.holder p (some h) }

/-- `new` may return `a`. -/
def Fresh (s : State ι Site Key) (a : Addr) : Prop :=
  a ∉ s.holders.map Prod.snd ∧ a ∉ s.values.map fun x => x.2.2

/-- The holder a thread is about to access. -/
def accesses : Pc Site → Option Addr
  | .loadState _ p | .lockHolder _ p | .reloadState _ p | .storeInstance _ p _
  | .storeState _ p _ | .unlockHolder _ p | .readInstance _ p => some p
  | _ => none

/-- One step of thread `i`; `key c` is the `type_info` of `Src<Ty, Tag>` for the type and the tag at
call site `c`. `StaticSingletonHolder::create` looks into the cache, `create_entry` runs under the mutex
of the map, the steps from `ptrSet` to `unlockEntry` are those of `Entry::create`, and those from
`stateLiving` on are those of `LazySingletonHolder::Get`, with its `create_instance`. `fault` is an access
to a holder whose constructor has not returned. -/
inductive Step (key : Site → Key) (i : ι) : State ι Site Key → State ι Site Key → Prop where
  | call (s : State ι Site Key) (c : Site) :
      s.pc i = .idle → Step key i s (s.setPc i (.loadCache c))
  | cacheHit (s : State ι Site Key) (c : Site) (p : Addr) :
      s.pc i = .loadCache c → s.cache c = some p → Step key i s (s.setPc i (.loadState c p))
  | cacheMiss (s : State ι Site Key) (c : Site) :
      s.pc i = .loadCache c → s.cache c = none → Step key i s (s.setPc i (.createEntry c))
  | createEntry (s : State ι Site Key) (c : Site) :
      s.pc i = .createEntry c → Step key i s (s.setPc i (.loadPtr c))
  | ptrSet (s : State ι Site Key) (c : Site) (p : Addr) :
      s.pc i = .loadPtr c → (s.map (key c)).ptr = some p →
      Step key i s (s.setPc i (.storeCache c p))
  | ptrNull (s : State ι Site Key) (c : Site) :
      s.pc i = .loadPtr c → (s.map (key c)).ptr = none → Step key i s (s.setPc i (.lockEntry c))
  | lockEntry (s : State ι Site Key) (c : Site) :
      s.pc i = .lockEntry c → (s.map (key c)).mutex = none →
      Step key i s ((s.setPc i (.reloadPtr c)).setEntry (key c)
        { s.map (key c) with mutex := some i })
  | ptrSetMeanwhile (s : State ι Site Key) (c : Site) (p : Addr) :
      s.pc i = .reloadPtr c → (s.map (key c)).ptr = some p →
      Step key i s (s.setPc i (.unlockEntry c p))
  | ptrStillNull (s : State ι Site Key) (c : Site) :
      s.pc i = .reloadPtr c → (s.map (key c)).ptr = none → Step key i s (s.setPc i (.make c))
  | make (s : State ι Site Key) (c : Site) (p : Addr) :
      s.pc i = .make c → s.Fresh p →
      Step key i s { s.setPc i (.making c p) with holders := s.holders ++ [(key c, p)] }
  | made (s : State ι Site Key) (c : Site) (p : Addr) :
      s.pc i = .making c p →
      Step key i s { (s.setPc i (.storePtr c p)).setHolder p ⟨none, .Dead, none⟩ with
        holdersBuilt := s.holdersBuilt ++ [(key c, p)] }
  | storePtr (s : State ι Site Key) (c : Site) (p : Addr) :
      s.pc i = .storePtr c p →
      Step key i s ((s.setPc i (.unlockEntry c p)).setEntry (key c)
        { s.map (key c) with ptr := some p })
  | unlockEntry (s : State ι Site Key) (c : Site) (p : Addr) :
      s.pc i = .unlockEntry c p →
      Step key i s ((s.setPc i (.storeCache c p)).setEntry (key c)
        { s.map (key c) with mutex := none })
  | storeCache (s : State ι Site Key) (c : Site) (p : Addr) :
      s.pc i = .storeCache c p →
      Step key i s { s.setPc i (.loadState c p) with cache := Function.update s.cache c (some p) }
  | stateLiving (s : State ι Site Key) (c : Site) (p : Addr) (h : Holder ι) :
      s.pc i = .loadState c p → s.holder p = some h → h.state = .Living →
      Step key i s (s.setPc i (.readInstance c p))
  | stateNotLiving (s : State ι Site Key) (c : Site) (p : Addr) (h : Holder ι) :
      s.pc i = .loadState c p → s.holder p = some h → h.state ≠ .Living →
      Step key i s (s.setPc i (.lockHolder c p))
  | lockHolder (s : State ι Site Key) (c : Site) (p : Addr) (h : Holder ι) :
      s.pc i = .lockHolder c p → s.holder p = some h → h.mutex = none →
      Step key i s ((s.setPc i (.reloadState c p)).setHolder p { h with mutex := some i })
  | livingMeanwhile (s : State ι Site Key) (c : Site) (p : Addr) (h : Holder ι) :
      s.pc i = .reloadState c p → s.holder p = some h → h.state = .Living →
      Step key i s (s.setPc i (.unlockHolder c p))
  | stillNotLiving (s : State ι Site Key) (c : Site) (p : Addr) (h : Holder ι) :
      s.pc i = .reloadState c p → s.holder p = some h → h.state ≠ .Living →
      Step key i s (s.setPc i (.newValue c p))
  | newValue (s : State ι Site Key) (c : Site) (p v : Addr) :
      s.pc i = .newValue c p → s.Fresh v →
      Step key i s { s.setPc i (.constructing c p v) with values := s.values ++ [(key c, p, v)] }
  | constructed (s : State ι Site Key) (c : Site) (p v : Addr) :
      s.pc i = .constructing c p v →
      Step key i s { s.setPc i (.storeInstance c p v) with
        valuesBuilt := s.valuesBuilt ++ [(key c, p, v)] }
  | storeInstance (s : State ι Site Key) (c : Site) (p v : Addr) (h : Holder ι) :
      s.pc i = .storeInstance c p v → s.holder p = some h →
      Step key i s ((s.setPc i (.storeState c p v)).setHolder p { h with instance' := some v })
  | storeState (s : State ι Site Key) (c : Site) (p v : Addr) (h : Holder ι) :
      s.pc i = .storeState c p v → s.holder p = some h →
      Step key i s ((s.setPc i (.unlockHolder c p)).setHolder p { h with state := .Living })
  | unlockHolder (s : State ι Site Key) (c : Site) (p : Addr) (h : Holder ι) :
      s.pc i = .unlockHolder c p → s.holder p = some h →
      Step key i s ((s.setPc i (.readInstance c p)).setHolder p { h with mutex := none })
  | readInstance (s : State ι Site Key) (c : Site) (p : Addr) (h : Holder ι) :
      s.pc i = .readInstance c p → s.holder p = some h →
      Step key i s { s.setPc i (.returned c h.instance') with
        results := s.results ++ [(c, h.instance')] }
  | return' (s : State ι Site Key) (c : Site) (r : Option Addr) :
      s.pc i = .returned c r → Step key i s (s.setPc i .idle)
  | fault (s : State ι Site Key) (p : Addr) :
      accesses (s.pc i) = some p → s.holder p = none → Step key i s (s.setPc i .fault)

def system (key : Site → Key) : TransitionSystem (State ι Site Key) ι where
  init s := s = init
  step s i s' := Step key i s s'

end State

end LazySingleton
end Huicpp
