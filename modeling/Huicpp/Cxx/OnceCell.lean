import Mathlib
import Huicpp.Cxx.TransitionSystem

/-!
# Cxx.OnceCell

Double-checked creation. Every cell has a flag, a value and a mutex. A thread that finds the flag
down takes the mutex, looks again, creates a value, stores it and raises the flag; the value and the
flag may be one word and one store. `created` and `built` record which creations have begun and
which have finished.
-/

namespace Cxx

/-- Where a thread is with respect to the cells. -/
inductive OncePc (κ α : Type) where
  | out
  | check (k : κ)
  | lock (k : κ)
  | recheck (k : κ)
  | create (k : κ)
  | creating (k : κ) (a : α)
  | publish (k : κ) (a : α)
  | raise (k : κ) (a : α)
  | unlock (k : κ)
  deriving DecidableEq, Repr

@[ext] structure OnceCell (ι κ α : Type) where
  ready : κ → Bool
  value : κ → Option α
  owner : κ → Option ι
  pc : ι → OncePc κ α
  created : List (κ × α)
  built : List (κ × α)

namespace OnceCell

variable {ι κ α : Type}

/-! ## What threads hold and know -/

/-- The cell whose mutex a thread holds. -/
def held : OncePc κ α → Option κ
  | .out | .check _ | .lock _ => none
  | .recheck k | .create k | .creating k _ | .publish k _ | .raise k _ | .unlock k => some k

/-- The creation a thread has begun and not published. -/
def pending : OncePc κ α → Option (κ × α)
  | .creating k a | .publish k a | .raise k a => some (k, a)
  | _ => none

/-- What a thread knows of the cell it is in. -/
def Known (s : OnceCell ι κ α) : OncePc κ α → Prop
  | .create k => s.ready k = false
  | .creating k a => s.ready k = false ∧ (k, a) ∈ s.created ∧ (k, a) ∉ s.built
  | .publish k a => s.ready k = false ∧ (k, a) ∈ s.built
  | .raise k a => s.ready k = false ∧ (k, a) ∈ s.built ∧ s.value k = some a
  | .unlock k => s.ready k = true
  | _ => True

structure Inv (s : OnceCell ι κ α) : Prop where
  owner : ∀ i k, held (s.pc i) = some k → s.owner k = some i
  known : ∀ i, Known s (s.pc i)
  ready : ∀ k, s.ready k = true → ∃ a, s.value k = some a ∧ (k, a) ∈ s.built
  built : s.built ⊆ s.created
  begun : ∀ k, k ∈ s.created.map Prod.fst →
    s.ready k = true ∨ ∃ i a, pending (s.pc i) = some (k, a)
  keys : (s.created.map Prod.fst).Nodup
  values : (s.created.map Prod.snd).Nodup

/-- What a thread knows survives a step that leaves the cell it holds alone. -/
theorem Known.frame {s s' : OnceCell ι κ α} {pc : OncePc κ α} (h : Known s pc)
    (hready : ∀ k, s.ready k = true → s'.ready k = true)
    (hcell : ∀ k, held pc = some k → s'.ready k = s.ready k ∧ s'.value k = s.value k)
    (hcreated : s.created ⊆ s'.created) (hbuilt : s.built ⊆ s'.built)
    (hnew : ∀ k a, pc = .creating k a → (k, a) ∈ s'.built → (k, a) ∈ s.built) : Known s' pc := by
  cases pc with
  | out => trivial
  | check k => trivial
  | lock k => trivial
  | recheck k => trivial
  | create k => exact (hcell k rfl).1.trans h
  | creating k a =>
    obtain ⟨h1, h2, h3⟩ := h
    exact ⟨(hcell k rfl).1.trans h1, hcreated h2, fun h => h3 (hnew k a rfl h)⟩
  | publish k a =>
    obtain ⟨h1, h2⟩ := h
    exact ⟨(hcell k rfl).1.trans h1, hbuilt h2⟩
  | raise k a =>
    obtain ⟨h1, h2, h3⟩ := h
    exact ⟨(hcell k rfl).1.trans h1, hbuilt h2, (hcell k rfl).2.trans h3⟩
  | unlock k => exact hready k h

theorem Inv.held_ne {s : OnceCell ι κ α} {i j : ι} {k k' : κ} (h : Inv s)
    (hi : held (s.pc i) = some k) (hji : j ≠ i) (hj : held (s.pc j) = some k') : k' ≠ k := by
  rintro rfl
  have := h.owner i k' hi
  rw [h.owner j k' hj] at this
  exact hji (Option.some.inj this)

theorem held_of_pending {pc : OncePc κ α} {k : κ} {a : α} (h : pending pc = some (k, a)) :
    held pc = some k := by
  cases pc with
  | creating k' a' => cases h; rfl
  | publish k' a' => cases h; rfl
  | raise k' a' => cases h; rfl
  | _ => cases h

theorem Inv.publishing {s : OnceCell ι κ α} {i : ι} {k : κ} {a : α} (h : Inv s)
    (hi : s.pc i = .publish k a) : s.ready k = false ∧ (k, a) ∈ s.built := by
  have := h.known i
  rw [hi] at this
  exact this

/-! ## Steps -/

variable [DecidableEq ι]

def setPc (s : OnceCell ι κ α) (i : ι) (pc : OncePc κ α) : OnceCell ι κ α :=
  { s with pc := Function.update s.pc i pc }

theorem setPc_eq_self {s : OnceCell ι κ α} {i : ι} {pc : OncePc κ α} (h : pc = s.pc i) :
    s.setPc i pc = s := by
  rw [setPc, h, Function.update_eq_self]

theorem pending_keep {pcs : ι → OncePc κ α} {i : ι} {pc : OncePc κ α} {k : κ}
    (h : ∃ j a, pending (pcs j) = some (k, a))
    (hi : ∀ a, pending (pcs i) = some (k, a) → ∃ b, pending pc = some (k, b)) :
    ∃ j a, pending (Function.update pcs i pc j) = some (k, a) := by
  obtain ⟨j, a, hj⟩ := h
  by_cases hji : j = i
  · subst hji
    obtain ⟨b, hb⟩ := hi a hj
    exact ⟨j, b, by rw [Function.update_self, hb]⟩
  · exact ⟨j, a, by rw [Function.update_of_ne hji, hj]⟩

theorem Inv.threads {s : OnceCell ι κ α} {i : ι} {pc : OncePc κ α} (h : Inv s)
    (s' : OnceCell ι κ α)
    (hpc : s'.pc = Function.update s.pc i pc)
    (hmine : ∀ k, held pc = some k → s'.owner k = some i)
    (hkeep : ∀ j k, j ≠ i → s.owner k = some j → s'.owner k = some j)
    (hknown : Known s' pc) (hframe : ∀ j, j ≠ i → Known s' (s.pc j)) :
    (∀ j k, held (s'.pc j) = some k → s'.owner k = some j) ∧ ∀ j, Known s' (s'.pc j) := by
  rw [hpc]
  constructor
  · intro j k hj
    by_cases hji : j = i
    · subst hji
      rw [Function.update_self] at hj
      exact hmine k hj
    · rw [Function.update_of_ne hji] at hj
      exact hkeep j k hji (h.owner j k hj)
  · intro j
    by_cases hji : j = i
    · subst hji
      rw [Function.update_self]
      exact hknown
    · rw [Function.update_of_ne hji]
      exact hframe j hji

theorem Inv.relock {s : OnceCell ι κ α} {i : ι} {pc : OncePc κ α} {owner : κ → Option ι}
    (h : Inv s) (hmine : ∀ k, held pc = some k → owner k = some i)
    (hkeep : ∀ j k, j ≠ i → s.owner k = some j → owner k = some j)
    (hpend : pending (s.pc i) = none) (hknown : Known s pc) :
    Inv { s.setPc i pc with owner := owner } := by
  obtain ⟨howner, hknown⟩ := h.threads { s.setPc i pc with owner := owner } rfl hmine hkeep
    (hknown.frame (fun _ h => h) (fun _ _ => ⟨rfl, rfl⟩) (List.Subset.refl _)
      (List.Subset.refl _) fun _ _ _ h => h)
    (fun j _ => (h.known j).frame (fun _ h => h) (fun _ _ => ⟨rfl, rfl⟩) (List.Subset.refl _)
      (List.Subset.refl _) fun _ _ _ h => h)
  refine ⟨howner, hknown, h.ready, h.built, ?_, h.keys, h.values⟩
  intro k hk
  refine (h.begun k hk).imp_right fun hp => pending_keep hp fun a ha => ?_
  rw [hpend] at ha
  cases ha

theorem Inv.move {s : OnceCell ι κ α} {i : ι} {pc : OncePc κ α} (h : Inv s)
    (hheld : held pc = held (s.pc i)) (hpend : pending (s.pc i) = none) (hknown : Known s pc) :
    Inv (s.setPc i pc) :=
  h.relock (fun k hk => h.owner i k (hheld ▸ hk)) (fun _ _ _ hj => hj) hpend hknown

/-- A thread that holds the mutex of a cell that is not ready and has begun nothing is the first to
create it. -/
theorem Inv.not_begun {s : OnceCell ι κ α} {i : ι} {k : κ} (h : Inv s) (hi : s.pc i = .create k) :
    k ∉ s.created.map Prod.fst := by
  intro hk
  have hready : s.ready k = false := by
    have := h.known i
    rw [hi] at this
    exact this
  rcases h.begun k hk with hr | ⟨j, a, hj⟩
  · rw [hready] at hr
    cases hr
  · have hji : j = i := by
      by_contra hji
      exact h.held_ne (k := k) (by rw [hi]; rfl) hji (held_of_pending hj) rfl
    rw [hji, hi] at hj
    cases hj

theorem Inv.create {s : OnceCell ι κ α} {i : ι} {k : κ} {a : α} (h : Inv s)
    (hi : s.pc i = .create k) (ha : a ∉ s.created.map Prod.snd) :
    Inv { s.setPc i (.creating k a) with created := s.created ++ [(k, a)] } := by
  have hk := h.not_begun hi
  have hknown : s.ready k = false := by
    have := h.known i
    rw [hi] at this
    exact this
  have hnew : (k, a) ∉ s.built := fun hb => hk (List.mem_map.mpr ⟨_, h.built hb, rfl⟩)
  obtain ⟨howner, hknown⟩ := h.threads
    { s.setPc i (.creating k a) with created := s.created ++ [(k, a)] } rfl
    (fun k' hk' => h.owner i k' (by rw [hi]; exact hk')) (fun _ _ _ hj => hj)
    ⟨hknown, List.mem_append_right _ (List.mem_singleton.mpr rfl), hnew⟩
    (fun j _ => (h.known j).frame (fun _ h => h) (fun _ _ => ⟨rfl, rfl⟩)
      (List.subset_append_left _ _) (List.Subset.refl _) fun _ _ _ h => h)
  refine ⟨howner, hknown, h.ready, fun x hx => List.mem_append_left _ (h.built hx), ?_, ?_, ?_⟩
  · intro k' hk'
    rw [List.map_append, List.mem_append] at hk'
    rcases hk' with hk' | hk'
    · refine (h.begun k' hk').imp_right fun hp => pending_keep hp fun b hb => ?_
      rw [hi] at hb
      cases hb
    · cases List.mem_singleton.mp hk'
      refine .inr ⟨i, a, ?_⟩
      show pending (Function.update s.pc i (.creating k a) i) = some (k, a)
      rw [Function.update_self]
      rfl
  · rw [List.map_append]
    refine h.keys.append (List.nodup_singleton _) fun x hx hy => ?_
    rw [List.mem_singleton.mp hy] at hx
    exact hk hx
  · rw [List.map_append]
    refine h.values.append (List.nodup_singleton _) fun x hx hy => ?_
    rw [List.mem_singleton.mp hy] at hx
    exact ha hx

theorem Inv.build {s : OnceCell ι κ α} {i : ι} {k : κ} {a : α} (h : Inv s)
    (hi : s.pc i = .creating k a) :
    Inv { s.setPc i (.publish k a) with built := s.built ++ [(k, a)] } := by
  have hknown : s.ready k = false ∧ (k, a) ∈ s.created ∧ (k, a) ∉ s.built := by
    have := h.known i
    rw [hi] at this
    exact this
  have hheld : held (s.pc i) = some k := by rw [hi]; rfl
  obtain ⟨howner, hknown'⟩ := h.threads
    { s.setPc i (.publish k a) with built := s.built ++ [(k, a)] } rfl
    (fun k' hk' => h.owner i k' (by rw [hi]; exact hk')) (fun _ _ _ hj => hj)
    ⟨hknown.1, List.mem_append_right _ (List.mem_singleton.mpr rfl)⟩
    (fun j hji => (h.known j).frame (fun _ h => h) (fun _ _ => ⟨rfl, rfl⟩)
      (List.Subset.refl _) (List.subset_append_left _ _) fun k' b hj hb => by
        rcases List.mem_append.mp hb with hb | hb
        · exact hb
        · cases List.mem_singleton.mp hb
          exact absurd rfl (h.held_ne hheld hji (by rw [hj]; rfl)))
  refine ⟨howner, hknown', ?_, ?_, ?_, h.keys, h.values⟩
  · intro k' hk'
    obtain ⟨b, hb, hmem⟩ := h.ready k' hk'
    exact ⟨b, hb, List.mem_append_left _ hmem⟩
  · intro x hx
    rcases List.mem_append.mp hx with hx | hx
    · exact h.built hx
    · rw [List.mem_singleton.mp hx]
      exact hknown.2.1
  · intro k' hk'
    refine (h.begun k' hk').imp_right fun hp => pending_keep hp fun b hb => ?_
    rw [hi] at hb
    cases hb
    exact ⟨_, rfl⟩

variable [DecidableEq κ]

/-- One step of thread `i`. -/
inductive Step (i : ι) : OnceCell ι κ α → OnceCell ι κ α → Prop where
  | enter (s : OnceCell ι κ α) (k : κ) : s.pc i = .out → Step i s (s.setPc i (.check k))
  | ready (s : OnceCell ι κ α) (k : κ) :
      s.pc i = .check k → s.ready k = true → Step i s (s.setPc i .out)
  | notReady (s : OnceCell ι κ α) (k : κ) :
      s.pc i = .check k → s.ready k = false → Step i s (s.setPc i (.lock k))
  | lock (s : OnceCell ι κ α) (k : κ) :
      s.pc i = .lock k → s.owner k = none →
      Step i s { s.setPc i (.recheck k) with owner := Function.update s.owner k (some i) }
  | stillReady (s : OnceCell ι κ α) (k : κ) :
      s.pc i = .recheck k → s.ready k = true → Step i s (s.setPc i (.unlock k))
  | stillNotReady (s : OnceCell ι κ α) (k : κ) :
      s.pc i = .recheck k → s.ready k = false → Step i s (s.setPc i (.create k))
  | create (s : OnceCell ι κ α) (k : κ) (a : α) :
      s.pc i = .create k → a ∉ s.created.map Prod.snd →
      Step i s { s.setPc i (.creating k a) with created := s.created ++ [(k, a)] }
  | built (s : OnceCell ι κ α) (k : κ) (a : α) :
      s.pc i = .creating k a →
      Step i s { s.setPc i (.publish k a) with built := s.built ++ [(k, a)] }
  | store (s : OnceCell ι κ α) (k : κ) (a : α) :
      s.pc i = .publish k a →
      Step i s { s.setPc i (.unlock k) with
        value := Function.update s.value k (some a)
        ready := Function.update s.ready k true }
  | write (s : OnceCell ι κ α) (k : κ) (a : α) :
      s.pc i = .publish k a →
      Step i s { s.setPc i (.raise k a) with value := Function.update s.value k (some a) }
  | raise (s : OnceCell ι κ α) (k : κ) (a : α) :
      s.pc i = .raise k a →
      Step i s { s.setPc i (.unlock k) with ready := Function.update s.ready k true }
  | unlock (s : OnceCell ι κ α) (k : κ) :
      s.pc i = .unlock k →
      Step i s { s.setPc i .out with owner := Function.update s.owner k none }

def system (ι κ α : Type) [DecidableEq ι] [DecidableEq κ] :
    TransitionSystem (OnceCell ι κ α) ι where
  init s := (∀ k, s.ready k = false) ∧ (∀ k, s.owner k = none) ∧ (∀ i, s.pc i = .out) ∧
    s.created = [] ∧ s.built = []
  step s i s' := Step i s s'

theorem inv_init {s : OnceCell ι κ α} (h : (system ι κ α).init s) : Inv s := by
  obtain ⟨hready, _, hpc, hcreated, hbuilt⟩ := h
  constructor
  · intro i k hi
    rw [hpc i] at hi
    cases hi
  · intro i
    rw [hpc i]
    trivial
  · intro k hk
    rw [hready k] at hk
    cases hk
  · rw [hbuilt]
    exact List.nil_subset _
  · intro k hk
    rw [hcreated] at hk
    cases hk
  · rw [hcreated]
    exact List.nodup_nil
  · rw [hcreated]
    exact List.nodup_nil

theorem Inv.lock {s : OnceCell ι κ α} {i : ι} {k : κ} (h : Inv s) (hi : s.pc i = .lock k)
    (hfree : s.owner k = none) :
    Inv { s.setPc i (.recheck k) with owner := Function.update s.owner k (some i) } := by
  refine h.relock ?_ ?_ (by rw [hi]; rfl) trivial
  · rintro k' ⟨⟩
    exact Function.update_self _ _ _
  · intro j k' _ hj
    rw [Function.update_of_ne]
    · exact hj
    · rintro rfl
      rw [hfree] at hj
      cases hj

theorem Inv.unlock {s : OnceCell ι κ α} {i : ι} {k : κ} (h : Inv s) (hi : s.pc i = .unlock k) :
    Inv { s.setPc i .out with owner := Function.update s.owner k none } := by
  refine h.relock (fun _ hk => by cases hk) ?_ (by rw [hi]; rfl) trivial
  intro j k' hji hj
  rw [Function.update_of_ne]
  · exact hj
  · rintro rfl
    rw [h.owner i k' (by rw [hi]; rfl)] at hj
    exact hji (Option.some.inj hj).symm

theorem Inv.makeReady {s : OnceCell ι κ α} {i : ι} {k : κ} {a : α} {value : κ → Option α}
    (h : Inv s) (hheld : held (s.pc i) = some k) (hpend : pending (s.pc i) = some (k, a))
    (hbuilt : (k, a) ∈ s.built) (hvalue : value k = some a)
    (hother : ∀ k', k' ≠ k → value k' = s.value k') :
    Inv { s.setPc i (.unlock k) with
      value := value
      ready := Function.update s.ready k true } := by
  have hready : ∀ k', s.ready k' = true → Function.update s.ready k true k' = true := by
    intro k' hk'
    by_cases hkk : k' = k
    · rw [hkk, Function.update_self]
    · rw [Function.update_of_ne hkk, hk']
  obtain ⟨howner, hknown⟩ := h.threads
    { s.setPc i (.unlock k) with value := value, ready := Function.update s.ready k true } rfl
    (fun k' hk' => h.owner i k' (by rw [hheld]; exact hk')) (fun _ _ _ hj => hj)
    (show Function.update s.ready k true k = true by rw [Function.update_self])
    (fun j hji => (h.known j).frame hready
      (fun k' hk' => ⟨Function.update_of_ne (h.held_ne hheld hji hk') _ _,
        hother k' (h.held_ne hheld hji hk')⟩)
      (List.Subset.refl _) (List.Subset.refl _) fun _ _ _ h => h)
  refine ⟨howner, hknown, ?_, h.built, ?_, h.keys, h.values⟩
  · intro k' hk'
    by_cases hkk : k' = k
    · subst hkk
      exact ⟨a, hvalue, hbuilt⟩
    · obtain ⟨b, hb, hmem⟩ := h.ready k' ((Function.update_of_ne hkk _ _).symm.trans hk')
      exact ⟨b, (hother k' hkk).trans hb, hmem⟩
  · intro k' hk'
    by_cases hkk : k' = k
    · subst hkk
      exact .inl (Function.update_self k' true s.ready)
    · refine (h.begun k' hk').imp (hready k') fun hp => pending_keep hp fun b hb => ?_
      rw [hpend] at hb
      cases hb
      exact absurd rfl hkk

theorem Inv.store {s : OnceCell ι κ α} {i : ι} {k : κ} {a : α} (h : Inv s)
    (hi : s.pc i = .publish k a) :
    Inv { s.setPc i (.unlock k) with
      value := Function.update s.value k (some a)
      ready := Function.update s.ready k true } :=
  h.makeReady (by rw [hi]; rfl) (by rw [hi]; rfl) (h.publishing hi).2 (Function.update_self _ _ _)
    fun _ hk => Function.update_of_ne hk _ _

theorem Inv.raise {s : OnceCell ι κ α} {i : ι} {k : κ} {a : α} (h : Inv s)
    (hi : s.pc i = .raise k a) :
    Inv { s.setPc i (.unlock k) with ready := Function.update s.ready k true } := by
  have hknown : s.ready k = false ∧ (k, a) ∈ s.built ∧ s.value k = some a := by
    have := h.known i
    rw [hi] at this
    exact this
  exact h.makeReady (by rw [hi]; rfl) (by rw [hi]; rfl) hknown.2.1 hknown.2.2 fun _ _ => rfl

theorem Inv.write {s : OnceCell ι κ α} {i : ι} {k : κ} {a : α} (h : Inv s)
    (hi : s.pc i = .publish k a) :
    Inv { s.setPc i (.raise k a) with value := Function.update s.value k (some a) } := by
  have hheld : held (s.pc i) = some k := by rw [hi]; rfl
  obtain ⟨hnot, hbuilt⟩ := h.publishing hi
  obtain ⟨howner, hknown⟩ := h.threads
    { s.setPc i (.raise k a) with value := Function.update s.value k (some a) } rfl
    (fun k' hk' => h.owner i k' (by rw [hheld]; exact hk')) (fun _ _ _ hj => hj)
    ⟨hnot, hbuilt, Function.update_self k (some a) s.value⟩
    (fun j hji => (h.known j).frame (fun _ h => h)
      (fun k' hk' => ⟨rfl, Function.update_of_ne (h.held_ne hheld hji hk') _ _⟩)
      (List.Subset.refl _) (List.Subset.refl _) fun _ _ _ h => h)
  refine ⟨howner, hknown, ?_, h.built, ?_, h.keys, h.values⟩
  · intro k' hk'
    have hkk : k' ≠ k := by
      rintro rfl
      exact Bool.false_ne_true (hnot.symm.trans hk')
    obtain ⟨b, hb, hmem⟩ := h.ready k' hk'
    exact ⟨b, (Function.update_of_ne hkk _ _).trans hb, hmem⟩
  · intro k' hk'
    refine (h.begun k' hk').imp_right fun hp => pending_keep hp fun b hb => ?_
    rw [hi] at hb
    cases hb
    exact ⟨_, rfl⟩

theorem Inv.step {s s' : OnceCell ι κ α} {i : ι} (h : Inv s) (hs : Step i s s') : Inv s' := by
  cases hs with
  | enter k hi => exact h.move (by rw [hi]; rfl) (by rw [hi]; rfl) trivial
  | ready k hi _ => exact h.move (by rw [hi]; rfl) (by rw [hi]; rfl) trivial
  | notReady k hi _ => exact h.move (by rw [hi]; rfl) (by rw [hi]; rfl) trivial
  | lock k hi hfree => exact h.lock hi hfree
  | stillReady k hi hready => exact h.move (by rw [hi]; rfl) (by rw [hi]; rfl) hready
  | stillNotReady k hi hready => exact h.move (by rw [hi]; rfl) (by rw [hi]; rfl) hready
  | create k a hi ha => exact h.create hi ha
  | built k a hi => exact h.build hi
  | store k a hi => exact h.store hi
  | write k a hi => exact h.write hi
  | raise k a hi => exact h.raise hi
  | unlock k hi => exact h.unlock hi

theorem inv_reachable {s : OnceCell ι κ α} (h : (system ι κ α).Reachable s) : Inv s :=
  h.invariant Inv (fun _ hi => inv_init hi) fun _ _ _ hi hs => hi.step hs

/-- A cell that is ready stays ready, with the same value. -/
theorem Inv.ready_stable {s s' : OnceCell ι κ α} {i : ι} {k : κ} (h : Inv s) (hs : Step i s s')
    (hready : s.ready k = true) : s'.ready k = true ∧ s'.value k = s.value k := by
  have hne : ∀ k', s.ready k' = false → k ≠ k' := by
    rintro k' hk' rfl
    exact Bool.false_ne_true (hk'.symm.trans hready)
  cases hs with
  | store k' a hi =>
    have hk := hne k' (h.publishing hi).1
    exact ⟨(Function.update_of_ne hk _ _).trans hready, Function.update_of_ne hk _ _⟩
  | write k' a hi =>
    exact ⟨hready, Function.update_of_ne (hne k' (h.publishing hi).1) _ _⟩
  | raise k' a hi =>
    refine ⟨?_, rfl⟩
    by_cases hk : k = k'
    · rw [hk]
      exact Function.update_self k' true s.ready
    · exact (Function.update_of_ne hk _ _).trans hready
  | _ => exact ⟨hready, rfl⟩

end OnceCell
end Cxx
