import Mathlib

/-!
# Cxx.Lock

A lock that a thread holds alone or together with others. The holds are a list, the newest first,
so that the holds of one thread are a stack.
-/

namespace Cxx

inductive LockMode where
  | shared
  | exclusive
  deriving DecidableEq, Repr

structure Lock (τ : Type) where
  holds : List (τ × LockMode)

namespace Lock

variable {τ : Type}

def free : Lock τ := ⟨[]⟩

/-- The lock is given to one thread alone if nobody holds it, and to one more sharing thread if all
who hold it share it. -/
def Grants (l : Lock τ) : LockMode → Prop
  | .exclusive => l.holds = []
  | .shared => ∀ h ∈ l.holds, h.2 = .shared

/-- A hold that is not shared is the only one. -/
def Compatible (l : Lock τ) : Prop := ∀ h ∈ l.holds, h.2 = .exclusive → l.holds = [h]

def acquire (t : τ) (m : LockMode) (l : Lock τ) : Lock τ := ⟨(t, m) :: l.holds⟩

variable [DecidableEq τ]

/-- How thread `t` holds the lock, the newest hold first. -/
def heldBy (t : τ) (l : Lock τ) : List LockMode :=
  (l.holds.filter fun h => h.1 = t).map Prod.snd

/-- Gives the newest hold of `t` back. -/
def release (t : τ) (l : Lock τ) : Lock τ := ⟨l.holds.eraseP fun h => h.1 = t⟩

@[simp] theorem heldBy_free (t : τ) : heldBy t (free : Lock τ) = [] := rfl

@[simp] theorem heldBy_acquire_self (t : τ) (m : LockMode) (l : Lock τ) :
    heldBy t (l.acquire t m) = m :: heldBy t l := by
  simp [heldBy, acquire]

theorem heldBy_acquire_of_ne {t u : τ} (h : u ≠ t) (m : LockMode) (l : Lock τ) :
    heldBy t (l.acquire u m) = heldBy t l := by
  simp [heldBy, acquire, h]

@[simp] theorem heldBy_release_self (t : τ) (l : Lock τ) :
    heldBy t (l.release t) = (heldBy t l).tail := by
  obtain ⟨holds⟩ := l
  simp only [heldBy, release]
  induction holds with
  | nil => rfl
  | cons h hs ih =>
    by_cases ht : h.1 = t
    · simp [ht]
    · simp [ht, ih]

theorem heldBy_release_of_ne {t u : τ} (hne : u ≠ t) (l : Lock τ) :
    heldBy t (l.release u) = heldBy t l := by
  obtain ⟨holds⟩ := l
  simp only [heldBy, release]
  induction holds with
  | nil => rfl
  | cons h hs ih =>
    by_cases hu : h.1 = u
    · simp [hu, hne]
    · rw [List.eraseP_cons_of_neg (by simpa using hu)]
      by_cases ht : h.1 = t
      · simp [ht, ih]
      · simp [ht, ih]

theorem mem_holds_of_heldBy {t : τ} {m : LockMode} {l : Lock τ} (h : m ∈ heldBy t l) :
    (t, m) ∈ l.holds := by
  obtain ⟨⟨u, m'⟩, hmem, rfl⟩ := List.mem_map.mp h
  obtain ⟨hholds, hu⟩ := List.mem_filter.mp hmem
  obtain rfl : u = t := by simpa using hu
  exact hholds

omit [DecidableEq τ] in
theorem compatible_free : (free : Lock τ).Compatible := by
  intro h hh
  cases hh

omit [DecidableEq τ] in
theorem compatible_acquire {l : Lock τ} {t : τ} {m : LockMode} (hm : l.Grants m) :
    (l.acquire t m).Compatible := by
  intro k hk hex
  cases m with
  | exclusive =>
    have hnil : l.holds = [] := hm
    rw [Lock.acquire, hnil] at hk ⊢
    rw [List.mem_singleton.mp hk]
  | shared =>
    rcases List.mem_cons.mp hk with rfl | hk
    · cases hex
    · have hsh : k.2 = .shared := hm k hk
      rw [hsh] at hex
      cases hex

theorem Compatible.release {l : Lock τ} (h : l.Compatible) (t : τ) : (l.release t).Compatible := by
  intro k hk hex
  have hl : l.holds = [k] := h k (List.mem_of_mem_eraseP hk) hex
  rw [Lock.release, hl] at hk ⊢
  by_cases hkt : k.1 = t
  · simp [hkt] at hk
  · simp [hkt]

/-- Mutual exclusion: of two threads that hold a lock, both share it. -/
theorem Compatible.shared {l : Lock τ} (h : l.Compatible) {t u : τ} (hne : t ≠ u) {m k : LockMode}
    (hm : m ∈ heldBy t l) (hk : k ∈ heldBy u l) : m = .shared := by
  cases m with
  | shared => rfl
  | exclusive =>
    have hl := h _ (mem_holds_of_heldBy hm) rfl
    have hmem := mem_holds_of_heldBy hk
    rw [hl, List.mem_singleton, Prod.mk.injEq] at hmem
    exact absurd hmem.1.symm hne

end Lock
end Cxx
