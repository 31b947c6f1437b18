import Mathlib
import Huicpp.Cxx.TransitionSystem

/-!
# Cxx.Ownership

Handles that are obtained from outside and have to be given back: connections, descriptors.

`Resources` is the outside: what was obtained and not yet closed, and whether anything else was
ever closed. `Owned r owner` says that the handles of `r` are divided among owners: each has exactly
one, nobody has any other, and nothing was closed wrongly. There is one lemma for each thing an
owner can do. When the last owner is gone, everything was closed, once (`Owned.all_closed`).
-/

namespace Cxx

structure Resources (η : Type) where
  opened : List η
  wrongClose : Bool
  deriving DecidableEq, Repr

namespace Resources

variable {η : Type}

def start : Resources η := ⟨[], false⟩

def obtain (r : Resources η) (h : η) : Resources η := { r with opened := h :: r.opened }

/-- Closing a handle that is not open is what must not happen. -/
def close [DecidableEq η] (r : Resources η) (h : η) : Resources η :=
  if h ∈ r.opened then { r with opened := r.opened.erase h } else { r with wrongClose := true }

/-- Close what is there, if anything is. -/
def release [DecidableEq η] (r : Resources η) : Option η → Resources η
  | some h => r.close h
  | none => r

@[simp] theorem obtain_opened (r : Resources η) (h : η) : (r.obtain h).opened = h :: r.opened := rfl

variable [DecidableEq η]

theorem close_of_mem {r : Resources η} {h : η} (hh : h ∈ r.opened) :
    r.close h = { r with opened := r.opened.erase h } := if_pos hh

/-- A handle that is obtained and closed at once. -/
@[simp] theorem close_obtain (r : Resources η) (h : η) : (r.obtain h).close h = r := by
  rw [close_of_mem List.mem_cons_self, obtain, List.erase_cons_head]

/-- One handle is opened anew while another is there for the time being. -/
theorem reopen_within {r : Resources η} {a h : η} (hh : h ∈ r.opened) (hne : a ≠ h) :
    (((r.obtain a).close h).obtain h).close a = (r.close h).obtain h := by
  have ha : (r.obtain a).close h = (r.close h).obtain a := by
    rw [close_of_mem (List.mem_cons_of_mem a hh), close_of_mem hh, obtain_opened,
      List.erase_cons_tail (by simpa using hne)]
    rfl
  have hswap : ∀ q : Resources η, ((q.obtain a).obtain h).close a = q.obtain h := by
    intro q
    rw [close_of_mem (List.mem_cons_of_mem h List.mem_cons_self), obtain_opened, obtain_opened,
      List.erase_cons_tail (by simpa using hne.symm), List.erase_cons_head]
    rfl
  rw [ha, hswap]

end Resources

structure Owned {η ι : Type} (r : Resources η) (owner : ι → Option η) : Prop where
  right : r.wrongClose = false
  nodup : r.opened.Nodup
  mem : ∀ h, h ∈ r.opened ↔ ∃ x, owner x = some h
  unique : ∀ x y h, owner x = some h → owner y = some h → x = y

namespace Owned

variable {η ι : Type} {r : Resources η} {owner : ι → Option η} {x y : ι} {h : η}

theorem start : Owned (Resources.start : Resources η) (fun _ : ι => none) where
  right := rfl
  nodup := .nil
  mem h := by simp [Resources.start]
  unique x y h hx := by cases hx

theorem all_closed (ho : Owned r owner) (hnone : ∀ x, owner x = none) : r.opened = [] := by
  rw [List.eq_nil_iff_forall_not_mem]
  intro h hh
  obtain ⟨x, hx⟩ := (ho.mem h).mp hh
  rw [hnone x] at hx
  cases hx

theorem not_of_lost (hh : h ∈ r.opened) (hno : ∀ x, owner x ≠ some h) : ¬ Owned r owner := by
  intro ho
  obtain ⟨x, hx⟩ := (ho.mem h).mp hh
  exact hno x hx

variable [DecidableEq ι]

theorem lost_of_update (ho : Owned r owner) (hx : owner x = some h) {o : Option η}
    (hne : o ≠ some h) (z : ι) : Function.update owner x o z ≠ some h := by
  intro hz
  obtain ⟨hzx, hz⟩ := (update_apply_eq_iff_of_ne hne).mp hz
  exact hzx (ho.unique z x h hz hx)

theorem obtain (ho : Owned r owner) (hx : owner x = none) (hnew : h ∉ r.opened) :
    Owned (r.obtain h) (Function.update owner x (some h)) where
  right := ho.right
  nodup := List.nodup_cons.mpr ⟨hnew, ho.nodup⟩
  mem k := by
    rw [Resources.obtain_opened, List.mem_cons, ho.mem]
    constructor
    · rintro (rfl | ⟨z, hz⟩)
      · exact ⟨x, Function.update_self _ _ _⟩
      · have hzx : z ≠ x := by
          rintro rfl
          rw [hx] at hz
          cases hz
        exact ⟨z, (Function.update_of_ne hzx _ _).trans hz⟩
    · rintro ⟨z, hz⟩
      rcases update_apply_eq_iff.mp hz with ⟨-, hk⟩ | ⟨-, hz⟩
      · exact .inl (Option.some.inj hk).symm
      · exact .inr ⟨z, hz⟩
  unique y z k hy hz := by
    have hother : ∀ w, owner w = some k → h ≠ k := by
      rintro w hw rfl
      exact hnew ((ho.mem h).mpr ⟨w, hw⟩)
    rcases update_apply_eq_iff.mp hy with ⟨hyx, hk⟩ | ⟨-, hy⟩
    · rcases update_apply_eq_iff.mp hz with ⟨hzx, -⟩ | ⟨-, hz⟩
      · exact hyx.trans hzx.symm
      · exact absurd (Option.some.inj hk) (hother z hz)
    · rcases update_apply_eq_iff.mp hz with ⟨-, hk⟩ | ⟨-, hz⟩
      · exact absurd (Option.some.inj hk) (hother y hy)
      · exact ho.unique y z k hy hz

theorem move (ho : Owned r owner) (hx : owner x = none) :
    Owned r (Function.update (Function.update owner y none) x (owner y)) := by
  by_cases hxy : x = y
  · subst hxy
    rw [Function.update_idem, Function.update_eq_self]
    exact ho
  -- who has a handle now had it before, or has it from `y`
  have hfrom : ∀ z k, Function.update (Function.update owner y none) x (owner y) z = some k →
      z = x ∧ owner y = some k ∨ z ≠ x ∧ z ≠ y ∧ owner z = some k := by
    intro z k hz
    refine (update_apply_eq_iff.mp hz).imp_right ?_
    rintro ⟨hzx, hz⟩
    exact ⟨hzx, (update_apply_eq_iff_of_ne (Option.some_ne_none k).symm).mp hz⟩
  refine ⟨ho.right, ho.nodup, fun k => ?_, fun z w k hz hw => ?_⟩
  · rw [ho.mem]
    constructor
    · rintro ⟨z, hz⟩
      by_cases hzy : z = y
      · exact ⟨x, by rw [Function.update_self, ← hzy, hz]⟩
      · have hzx : z ≠ x := by
          rintro rfl
          rw [hx] at hz
          cases hz
        exact ⟨z, by rw [Function.update_of_ne hzx, Function.update_of_ne hzy, hz]⟩
    · rintro ⟨z, hz⟩
      rcases hfrom z k hz with ⟨_, hy⟩ | ⟨_, _, hz'⟩
      · exact ⟨y, hy⟩
      · exact ⟨z, hz'⟩
  · rcases hfrom z k hz with ⟨rfl, hy⟩ | ⟨hzx, hzy, hz'⟩
    · rcases hfrom w k hw with ⟨rfl, _⟩ | ⟨_, hwy, hw'⟩
      · rfl
      · exact absurd (ho.unique w y k hw' hy) hwy
    · rcases hfrom w k hw with ⟨_, hy⟩ | ⟨_, _, hw'⟩
      · exact absurd (ho.unique z y k hz' hy) hzy
      · exact ho.unique z w k hz' hw'

variable [DecidableEq η]

theorem close (ho : Owned r owner) (hx : owner x = some h) :
    Owned (r.close h) (Function.update owner x none) := by
  have hh : h ∈ r.opened := (ho.mem h).mpr ⟨x, hx⟩
  have hother : ∀ z k, Function.update owner x none z = some k → z ≠ x ∧ owner z = some k :=
    fun z k => (update_apply_eq_iff_of_ne (Option.some_ne_none k).symm).mp
  rw [Resources.close_of_mem hh]
  refine ⟨ho.right, ho.nodup.erase h, fun k => ?_, fun y z k hy hz => ?_⟩
  · rw [ho.nodup.mem_erase_iff, ho.mem]
    constructor
    · rintro ⟨hne, z, hz⟩
      have hzx : z ≠ x := by
        rintro rfl
        exact hne (Option.some.inj (hz.symm.trans hx))
      exact ⟨z, (Function.update_of_ne hzx _ _).trans hz⟩
    · rintro ⟨z, hz⟩
      obtain ⟨hzx, hz'⟩ := hother z k hz
      refine ⟨?_, z, hz'⟩
      rintro rfl
      exact hzx (ho.unique z x k hz' hx)
  · exact ho.unique y z k (hother y k hy).2 (hother z k hz).2

theorem release (ho : Owned r owner) (x : ι) :
    Owned (r.release (owner x)) (Function.update owner x none) := by
  cases hx : owner x with
  | some h => exact ho.close hx
  | none =>
    have hsame : Function.update owner x none = owner := by rw [← hx, Function.update_eq_self]
    rw [hsame]
    exact ho

theorem reopen (ho : Owned r owner) (hx : owner x = some h) :
    Owned ((r.close h).obtain h) owner := by
  have hclosed := ho.close hx
  have hnot : h ∉ (r.close h).opened := by
    intro hh
    obtain ⟨z, hz⟩ := (hclosed.mem h).mp hh
    exact ho.lost_of_update hx (Option.some_ne_none h).symm z hz
  have hagain := hclosed.obtain (Function.update_self x none owner) hnot
  rwa [Function.update_idem, ← hx, Function.update_eq_self] at hagain

end Owned

/-! ## Many handles at once -/

namespace Resources

variable {η : Type} [DecidableEq η]

theorem close_nodup {r : Resources η} (hr : r.opened.Nodup) (h : η) : (r.close h).opened.Nodup := by
  rw [close]
  split
  · exact hr.erase h
  · exact hr

theorem not_mem_close {r : Resources η} (hr : r.opened.Nodup) (h : η) : h ∉ (r.close h).opened := by
  rw [close]
  split
  · exact fun hmem => (hr.mem_erase_iff.mp hmem).1 rfl
  · assumption

/-- Closes one handle after the other. -/
def closeAll (r : Resources η) (hs : List η) : Resources η := hs.foldl close r

theorem closeAll_of_nodup {r : Resources η} {hs : List η} (hr : r.opened.Nodup) (hs' : hs.Nodup)
    (hsub : ∀ h ∈ hs, h ∈ r.opened) :
    (r.closeAll hs).wrongClose = r.wrongClose ∧
      ∀ k, k ∈ (r.closeAll hs).opened ↔ k ∈ r.opened ∧ k ∉ hs := by
  induction hs generalizing r with
  | nil => exact ⟨rfl, fun k => by simp [closeAll]⟩
  | cons h hs ih =>
    obtain ⟨hnot, hnodup⟩ := List.nodup_cons.mp hs'
    have hclose := close_of_mem (hsub h List.mem_cons_self)
    have hrest : ∀ k ∈ hs, k ∈ (r.close h).opened := by
      intro k hk
      rw [hclose]
      refine (hr.mem_erase_iff).mpr ⟨?_, hsub k (List.mem_cons_of_mem h hk)⟩
      rintro rfl
      exact hnot hk
    obtain ⟨hwrong, hopen⟩ := ih (close_nodup hr h) hnodup hrest
    refine ⟨hwrong.trans (by rw [hclose]), fun k => (hopen k).trans ?_⟩
    rw [hclose, hr.mem_erase_iff, List.mem_cons, not_or]
    tauto

theorem closeAll_wrong {r : Resources η} (h : r.wrongClose = true) (hs : List η) :
    (r.closeAll hs).wrongClose = true := by
  induction hs generalizing r with
  | nil => exact h
  | cons k hs ih =>
    refine ih ?_
    rw [close]
    split
    · exact h
    · rfl

theorem not_mem_closeAll {r : Resources η} {h : η} (hh : h ∉ r.opened) (hs : List η) :
    h ∉ (r.closeAll hs).opened := by
  induction hs generalizing r with
  | nil => exact hh
  | cons k hs ih =>
    refine ih (r := r.close k) ?_
    rw [close]
    split
    · exact fun hmem => hh (List.mem_of_mem_erase hmem)
    · exact hh

theorem closed_of_mem {r : Resources η} {hs : List η} {h : η} (hr : r.opened.Nodup) (hh : h ∈ hs) :
    h ∉ (r.closeAll hs).opened := by
  induction hs generalizing r with
  | nil => cases hh
  | cons k hs ih =>
    rcases List.mem_cons.mp hh with rfl | hh
    · exact not_mem_closeAll (not_mem_close hr h) hs
    · exact ih (close_nodup hr k) hh

theorem closeAll_of_not_nodup {r : Resources η} {hs : List η} (hr : r.opened.Nodup)
    (hs' : ¬ hs.Nodup) : (r.closeAll hs).wrongClose = true := by
  induction hs generalizing r with
  | nil => exact absurd .nil hs'
  | cons h hs ih =>
    by_cases hh : h ∈ r.opened
    · have hropen := close_nodup hr h
      by_cases hnodup : hs.Nodup
      · -- `h` comes once more, when it is not open
        have hmem : h ∈ hs := by
          by_contra hno
          exact hs' (List.nodup_cons.mpr ⟨hno, hnodup⟩)
        have hclosed := not_mem_close hr h
        obtain ⟨front, rest, rfl⟩ := List.append_of_mem hmem
        show ((r.close h).closeAll (front ++ h :: rest)).wrongClose = true
        rw [closeAll, List.foldl_append]
        refine closeAll_wrong (r := (((r.close h).closeAll front).close h)) ?_ rest
        rw [close, if_neg (not_mem_closeAll hclosed front)]
      · exact ih hropen hnodup
    · refine closeAll_wrong ?_ hs
      rw [close, if_neg hh]

end Resources

end Cxx
