import Mathlib
import Huicpp.Cxx.Occurrence

/-!
# Cxx.Rewrite

Replacing `key` by `dst`: in one pass from left to right (`replaceAll`), or at the leftmost place
again and again (`Rewrites`). The second way looks at what it has replaced once more.

* `Settles key dst done t`: what was replaced so far, `done`, does no harm to what follows.
* `Settles.rewrites`: then both ways end in the same list.
-/

namespace Cxx

variable {α : Type} {key dst s t r done p rest a c : List α}

/-- Replacing the leftmost `key` until there is none. -/
inductive Rewrites (key dst : List α) : List α → List α → Prop where
  | done {s : List α} : ¬ key <:+: s → Rewrites key dst s s
  | step {a c r : List α} : FirstAt key (a ++ key ++ c) a.length → Rewrites key dst (a ++ dst ++ c) r →
      Rewrites key dst (a ++ key ++ c) r

/-- With `done` in front, `key` may begin further left than the pass has come, at `x`. Replacing it
there then gives the same list. -/
def Unharmed (key dst done rest : List α) : Prop :=
  ∀ a x, done = a ++ x → FirstAt key (done ++ key ++ rest) a.length →
    ∃ z, z <:+ key ∧ x ++ dst = dst ++ z

/-- The pass has made `done`, and `t` is left. At the end there is no `key` in the result. -/
inductive Settles (key dst : List α) : List α → List α → Prop where
  | last {done t : List α} : ¬ key <:+: t → ¬ key <:+: done ++ t → Settles key dst done t
  | cut {done p rest : List α} : FirstAt key (p ++ key ++ rest) p.length →
      Unharmed key dst (done ++ p) rest → Settles key dst (done ++ p ++ dst) rest →
      Settles key dst done (p ++ key ++ rest)

/-! ## One pass -/

section Pass

variable [DecidableEq α]

/-- One pass, after `skip` elements that belong to a replaced `key`. -/
def replaceFrom (key dst : List α) : Nat → List α → List α
  | _, [] => []
  | skip + 1, _ :: s => replaceFrom key dst skip s
  | 0, c :: s =>
    if key <+: c :: s then dst ++ replaceFrom key dst (key.length - 1) s
    else c :: replaceFrom key dst 0 s

/-- Every `key` from left to right, none of which shares an element with another, replaced by
`dst`. -/
def replaceAll (key dst s : List α) : List α := replaceFrom key dst 0 s

theorem replaceFrom_drop (key dst : List α) (skip : Nat) (s : List α) :
    replaceFrom key dst skip s = replaceAll key dst (s.drop skip) := by
  induction s generalizing skip with
  | nil => simp [replaceAll, replaceFrom]
  | cons c s ih =>
    cases skip with
    | zero => rfl
    | succ skip => rw [replaceFrom, ih, List.drop_succ_cons]

theorem replaceAll_of_none (h : ¬ key <:+: s) : replaceAll key dst s = s := by
  induction s with
  | nil => rfl
  | cons c s ih =>
    rw [List.infix_cons_iff, not_or] at h
    rw [replaceAll, replaceFrom, if_neg h.1]
    exact congrArg (c :: ·) (ih h.2)

theorem replaceAll_of_firstAt (hkey : key ≠ []) (h : FirstAt key (p ++ key ++ rest) p.length) :
    replaceAll key dst (p ++ key ++ rest) = p ++ dst ++ replaceAll key dst rest := by
  induction p with
  | nil =>
    obtain ⟨k, ks, rfl⟩ := List.exists_cons_of_ne_nil hkey
    have hpre : k :: ks <+: k :: (ks ++ rest) := List.prefix_append (k :: ks) rest
    rw [List.nil_append, List.cons_append, replaceAll, replaceFrom, if_pos hpre,
      replaceFrom_drop, List.length_cons, Nat.add_sub_cancel, List.drop_left]
    rfl
  | cons c p ih =>
    obtain ⟨hpre, hfirst⟩ := firstAt_succ.mp h
    calc replaceAll key dst (c :: (p ++ key ++ rest))
        = c :: replaceAll key dst (p ++ key ++ rest) := if_neg hpre
      _ = c :: (p ++ dst ++ replaceAll key dst rest) := by rw [ih hfirst]

end Pass

/-! ## Again and again -/

theorem Rewrites.not_occurs (h : Rewrites key dst s r) : ¬ key <:+: r := by
  induction h with
  | done hs => exact hs
  | step _ _ ih => exact ih

theorem Rewrites.eq_self (h : Rewrites key dst s r) (hnone : ¬ key <:+: s) : r = s := by
  cases h with
  | done _ => rfl
  | @step a c _ _ _ => exact absurd (List.infix_append a key c) hnone

/-- Each replacement takes the length of `key` off, and puts that of `dst` on. -/
theorem Rewrites.length_eq (h : Rewrites key dst s r) :
    ∃ n, s.length + n * dst.length = r.length + n * key.length := by
  induction h with
  | done _ => exact ⟨0, by simp⟩
  | step _ _ ih =>
    obtain ⟨n, hn⟩ := ih
    refine ⟨n + 1, ?_⟩
    rw [List.length_append, List.length_append] at hn ⊢
    rw [Nat.succ_mul, Nat.succ_mul]
    omega

theorem Rewrites.sublist (h : Rewrites key [] s r) : r.Sublist s := by
  induction h with
  | done _ => exact List.Sublist.refl _
  | @step a c _ _ _ ih =>
    rw [List.append_nil] at ih
    refine ih.trans (List.Sublist.append_right ?_ c)
    exact List.sublist_append_left a key

theorem exists_firstAt (h : key <:+: s) : ∃ a c, s = a ++ key ++ c ∧ FirstAt key s a.length := by
  classical
  cases hfind : leftmost key s with
  | none => exact absurd h (leftmost_eq_none.mp hfind)
  | some i =>
    have hfirst := leftmost_eq_some.mp hfind
    obtain ⟨a, c, hs, rfl⟩ := hfirst.1.eq_append
    exact ⟨a, c, hs, hfirst⟩

/-- A shorter text put in each time makes an end. -/
theorem Rewrites.exists_of_shorter (hshorter : dst.length < key.length) (s : List α) :
    ∃ r, Rewrites key dst s r := by
  induction hn : s.length using Nat.strongRecOn generalizing s with
  | ind n ih =>
    by_cases hoccurs : key <:+: s
    · obtain ⟨a, c, rfl, hfirst⟩ := exists_firstAt hoccurs
      have hless : (a ++ dst ++ c).length < n := by
        rw [← hn]
        simp only [List.length_append]
        omega
      obtain ⟨r, hr⟩ := ih _ hless _ rfl
      exact ⟨r, .step hfirst hr⟩
    · exact ⟨s, .done hoccurs⟩

theorem behind_first {x z : List α} (h : x ++ key ++ rest = key ++ c) (hz : z <:+ key)
    (hlen : x.length = z.length) : c = z ++ rest := by
  obtain ⟨y, rfl⟩ := hz
  have hsame : (x ++ y) ++ (z ++ rest) = (y ++ z) ++ c := by
    rw [← h]
    simp only [List.append_assoc]
  refine (List.append_inj_right hsame ?_).symm
  rw [List.length_append, List.length_append, hlen, Nat.add_comm]

/-! ## Both ways -/

section Compare

variable [DecidableEq α]

theorem Settles.rewrites (hkey : key ≠ []) (h : Settles key dst done t) :
    Rewrites key dst (done ++ t) (done ++ replaceAll key dst t) := by
  induction h with
  | last ht hall =>
    rw [replaceAll_of_none ht]
    exact .done hall
  | @cut done p rest hfirst hunharmed _ ih =>
    rw [replaceAll_of_firstAt hkey hfirst]
    have hwhole : done ++ (p ++ key ++ rest) = (done ++ p) ++ key ++ rest := by
      simp only [List.append_assoc]
    obtain ⟨a, c, hs, hleft⟩ := exists_firstAt (List.infix_append (done ++ p) key rest)
    have hle : a.length ≤ (done ++ p).length := by
      by_contra hlt
      exact hleft.2 _ (not_le.mp hlt) (occursAt_length key (done ++ p) rest)
    have hfront : a <+: done ++ p ++ key ++ rest := by
      rw [hs, List.append_assoc]
      exact List.prefix_append a _
    have hback : done ++ p <+: done ++ p ++ key ++ rest := by
      rw [List.append_assoc (done ++ p)]
      exact List.prefix_append (done ++ p) _
    obtain ⟨x, hx⟩ := List.prefix_of_prefix_length_le hfront hback hle
    obtain ⟨z, hz, hswap⟩ := hunharmed a x hx.symm hleft
    have hlen : x.length = z.length := by
      have hlens := congrArg List.length hswap
      rw [List.length_append, List.length_append] at hlens
      omega
    have hc : c = z ++ rest := by
      refine behind_first ?_ hz hlen
      rw [← hx, List.append_assoc, List.append_assoc, List.append_assoc] at hs
      rw [List.append_assoc]
      exact List.append_cancel_left hs
    have hnext : a ++ dst ++ c = done ++ p ++ dst ++ rest := by
      rw [← hx, hc, List.append_assoc, ← List.append_assoc dst, ← hswap]
      simp only [List.append_assoc]
    rw [hwhole, hs]
    rw [hs] at hleft
    refine .step hleft ?_
    rw [hnext]
    simpa only [List.append_assoc] using ih

end Compare

end Cxx
