import Mathlib
import Huicpp.Cxx.RewriteRuns
import Huicpp.Str.HStr

/-!
# Str.Replace

`HStr::Replaces` and `HStr::Removes`, which repeat `Replace` and `Remove` as long as these return
`OK`.

* `whileOk_returns_iff`: such a loop replaces the leftmost `key` until there is none.
* `replaces_iff`: `Replaces` against one pass over the string.
* `removes_fixpoint`: `Removes` ends, and what it leaves has no `key`.
-/

namespace Huicpp
namespace Str

open Cxx Cxx.Text

/-- `HStr::Replace(src, srcKey, dstKey)`. The result has the final `src`. -/
def replace (src srcKey dstKey : List Byte) : Outcome (HRet × List Byte) := do
  if ¬ (¬ src.isEmpty ∧ ¬ srcKey.isEmpty ∧ ¬ dstKey.isEmpty) then return (.invlPara, src)
  match find src srcKey 0 with
  | none => return (.overFlow, src)
  | some pos =>
    let src ← Text.replace src pos srcKey.length dstKey
    return (.ok, src)

/-- `HStr::Remove(src, strKey)` -/
def remove (src strKey : List Byte) : Outcome (HRet × List Byte) := do
  if ¬ (¬ src.isEmpty ∧ ¬ strKey.isEmpty) then return (.invlPara, src)
  match find src strKey 0 with
  | none => return (.overFlow, src)
  | some pos =>
    let src ← Text.erase src pos strKey.length
    return (.ok, src)

/-- One turn of such a loop. -/
def okStep (once : List Byte → Outcome (HRet × List Byte)) (src : List Byte) :
    Prog (Ctl (List Byte) (List Byte)) := do
  let (ret, src) ← once src
  return if ret = .ok then .again src else .exit src

/-- `while (IS_OK(once(src))) ;` -/
def whileOk (once : List Byte → Outcome (HRet × List Byte)) (src : List Byte) : Prog (List Byte) :=
  Prog.loop (okStep once) src

/-- `HStr::Replaces(src, srcKey, dstKey)` -/
def replaces (src srcKey dstKey : List Byte) : Prog (HRet × List Byte) := do
  let src ← whileOk (fun src => replace src srcKey dstKey) src
  return (.ok, src)

/-- `HStr::Removes(src, strKey)` -/
def removes (src strKey : List Byte) : Prog (HRet × List Byte) := do
  let src ← whileOk (fun src => remove src strKey) src
  return (.ok, src)

/-! ## One step -/

variable {src key dst p rest r : List Byte} {once : List Byte → Outcome (HRet × List Byte)}

/-- `once` puts `dst` for the leftmost `key`, or returns an error when there is none. -/
structure ReplacesFirst (key dst : List Byte) (once : List Byte → Outcome (HRet × List Byte)) :
    Prop where
  none : ∀ s, ¬ key <:+: s → ∃ ret, ret ≠ .ok ∧ once s = .ok (ret, s)
  first : ∀ p rest, FirstAt key (p ++ key ++ rest) p.length →
    once (p ++ key ++ rest) = .ok (.ok, p ++ dst ++ rest)

theorem not_isEmpty (hkey : key ≠ []) (p rest : List Byte) : ¬ (p ++ key ++ rest).isEmpty := by
  simp [List.isEmpty_iff, hkey]

theorem find_front (hfirst : FirstAt key (p ++ key ++ rest) p.length) :
    find (p ++ key ++ rest) key 0 = some p.length := by
  rw [find_first (Nat.zero_le _) rfl hfirst, Nat.zero_add]

theorem replace_replacesFirst (hkey : key ≠ []) (hdst : dst ≠ []) :
    ReplacesFirst key dst (fun src => replace src key dst) where
  none := by
    intro s hnone
    have hfind : find s key 0 = none := find_npos (Nat.zero_le _) hnone
    by_cases hguard : ¬ s.isEmpty ∧ ¬ key.isEmpty ∧ ¬ dst.isEmpty
    · refine ⟨.overFlow, by simp, ?_⟩
      simp only [replace, if_neg (not_not.mpr hguard), hfind]
      rfl
    · refine ⟨.invlPara, by simp, ?_⟩
      simp only [replace, if_pos hguard]
      rfl
  first := by
    intro p rest hfirst
    have hguard : ¬ (p ++ key ++ rest).isEmpty ∧ ¬ key.isEmpty ∧ ¬ dst.isEmpty := by
      refine ⟨not_isEmpty hkey p rest, ?_⟩
      rw [List.isEmpty_iff, List.isEmpty_iff]
      exact ⟨hkey, hdst⟩
    simp only [replace, if_neg (not_not.mpr hguard), find_front hfirst, replace_at]
    rfl

theorem remove_replacesFirst (hkey : key ≠ []) :
    ReplacesFirst key [] (fun src => remove src key) where
  none := by
    intro s hnone
    have hfind : find s key 0 = none := find_npos (Nat.zero_le _) hnone
    by_cases hguard : ¬ s.isEmpty ∧ ¬ key.isEmpty
    · refine ⟨.overFlow, by simp, ?_⟩
      simp only [remove, if_neg (not_not.mpr hguard), hfind]
      rfl
    · refine ⟨.invlPara, by simp, ?_⟩
      simp only [remove, if_pos hguard]
      rfl
  first := by
    intro p rest hfirst
    have hguard : ¬ (p ++ key ++ rest).isEmpty ∧ ¬ key.isEmpty := by
      refine ⟨not_isEmpty hkey p rest, ?_⟩
      rw [List.isEmpty_iff]
      exact hkey
    simp only [remove, if_neg (not_not.mpr hguard), find_front hfirst, erase_at, List.append_nil]
    rfl

/-! ## The loop -/

theorem ReplacesFirst.okStep (h : ReplacesFirst key dst once) (s : List Byte) :
    (¬ key <:+: s ∧ ∀ m, okStep once s m = .ok (.exit s)) ∨
    ∃ p rest, s = p ++ key ++ rest ∧ FirstAt key s p.length ∧
      ∀ m, Str.okStep once s m = .ok (.again (p ++ dst ++ rest)) := by
  by_cases hoccurs : key <:+: s
  · obtain ⟨p, rest, rfl, hfirst⟩ := exists_firstAt hoccurs
    refine .inr ⟨p, rest, rfl, hfirst, fun m => ?_⟩
    rw [Str.okStep, h.first p rest hfirst]
    rfl
  · obtain ⟨ret, hret, honce⟩ := h.none s hoccurs
    refine .inl ⟨hoccurs, fun m => ?_⟩
    rw [Str.okStep, honce]
    show Outcome.ok (if ret = .ok then _ else _) = _
    rw [if_neg hret]

theorem whileOk_returns (h : ReplacesFirst key dst once) (hrun : Rewrites key dst src r) :
    Prog.Returns (whileOk once src) r := by
  induction hrun with
  | @done s hnone =>
    rcases h.okStep s with ⟨_, hbody⟩ | ⟨p, rest, rfl, _, _⟩
    · exact .loop_exit ⟨0, fun m _ => hbody m⟩
    · exact absurd (List.infix_append p key rest) hnone
  | @step a c r hfirst _ ih =>
    refine Prog.Returns.loop_again ⟨0, fun m _ => ?_⟩ ih
    rw [okStep, h.first a c hfirst]
    rfl

/-- The loop, when it ends, has replaced the leftmost `key` until there was none. -/
theorem whileOk_returns_iff (h : ReplacesFirst key dst once) :
    Prog.Returns (whileOk once src) r ↔ Rewrites key dst src r := by
  refine ⟨fun hrun => ?_, whileOk_returns h⟩
  have htotal : ∀ s, ∃ ctl, ∀ m, okStep once s m = .ok ctl := by
    intro s
    rcases h.okStep s with ⟨_, hbody⟩ | ⟨p, rest, _, _, hbody⟩
    · exact ⟨_, hbody⟩
    · exact ⟨_, hbody⟩
  choose step hstep using htotal
  refine Prog.Returns.loop_run hstep (fun s a hexit => ?_) (fun s s' a hagain hnext => ?_) hrun
  · rcases h.okStep s with ⟨hnone, hbody⟩ | ⟨p, rest, _, _, hbody⟩
    · have hsame := (hstep s 0).symm.trans (hbody 0)
      rw [hexit] at hsame
      cases hsame
      exact .done hnone
    · have hsame := (hstep s 0).symm.trans (hbody 0)
      rw [hexit] at hsame
      cases hsame
  · rcases h.okStep s with ⟨_, hbody⟩ | ⟨p, rest, rfl, hfirst, hbody⟩
    · have hsame := (hstep s 0).symm.trans (hbody 0)
      rw [hagain] at hsame
      cases hsame
    · have hsame := (hstep _ 0).symm.trans (hbody 0)
      rw [hagain] at hsame
      cases hsame
      exact .step hfirst hnext

/-! ## Replaces -/

theorem ok_injective : Function.Injective fun src : List Byte => (HRet.ok, src) := by
  intro s s' hsame
  exact congrArg Prod.snd hsame

theorem replaces_returns_iff (hkey : key ≠ []) (hdst : dst ≠ []) :
    Prog.Returns (replaces src key dst) (.ok, r) ↔ Rewrites key dst src r := by
  rw [← whileOk_returns_iff (replace_replacesFirst hkey hdst)]
  exact ⟨Prog.Returns.of_map ok_injective, Prog.Returns.map⟩

/-- **Replacing again and again, and replacing in one pass.** They agree when nothing that was
replaced does harm to what follows, and only then, unless `dstKey` is start and end of `srcKey` and
there is a longer such list. -/
theorem replaces_iff {srcKey dstKey : List Byte} (hkey : srcKey ≠ []) (hdst : dstKey ≠ []) :
    (Settles srcKey dstKey [] src →
      Prog.Returns (replaces src srcKey dstKey) (.ok, replaceAll srcKey dstKey src)) ∧
    ((dstKey <+: srcKey → dstKey <:+ srcKey →
        ∀ u, u <+: srcKey → u <:+ srcKey → u ≠ srcKey → u.length ≤ dstKey.length) →
      Prog.Returns (replaces src srcKey dstKey) (.ok, replaceAll srcKey dstKey src) →
      Settles srcKey dstKey [] src) := by
  rw [replaces_returns_iff hkey hdst]
  exact ⟨Settles.rewrites hkey, settles_of_rewrites hkey⟩

/-- `a,b,c` becomes `a;b;c`, and `aab` is not settled when `ab` becomes `b`. -/
theorem replaces_iff_commas :
    Prog.Returns (replaces [97, 44, 98, 44, 99] [44] [59]) (.ok, [97, 59, 98, 59, 99]) ∧
    ¬ Prog.Returns (replaces [97, 97, 98] [97, 98] [98]) (.ok, [97, 98]) := by
  have hfirst : ∀ p rest : List Byte, 44 ∉ p → FirstAt [44] (p ++ [44] ++ rest) p.length :=
    fun p rest hp => firstAt_of_disjoint (List.cons_ne_nil _ _) (List.disjoint_singleton.mpr hp) rest
  have hunharmed : ∀ p rest : List Byte, 44 ∉ p → Unharmed [44] [59] p rest := by
    rintro p rest hp a x rfl hleft
    have hlen := hleft.unique (hfirst _ rest hp)
    rw [List.length_append, Nat.left_eq_add, List.length_eq_zero_iff] at hlen
    subst hlen
    exact ⟨[], List.nil_suffix, rfl⟩
  constructor
  · have hsettles : Settles [44] [59] [] ([97] ++ [44] ++ ([98] ++ [44] ++ [99]) : List Byte) :=
      .cut (hfirst _ _ (by decide)) (hunharmed _ _ (by decide))
        (.cut (hfirst _ _ (by decide)) (hunharmed _ _ (by decide)) (.last (by decide) (by decide)))
    exact (replaces_iff (List.cons_ne_nil _ _) (List.cons_ne_nil _ _)).1 hsettles
  · intro hreturns
    have hsettles := (@replaces_iff [97, 97, 98] [97, 98] [98] (List.cons_ne_nil _ _)
      (List.cons_ne_nil _ _)).2 (fun h => absurd h (by decide)) hreturns
    have hend : ∀ t : List Byte, t = [] → ¬ Settles [97, 98] [98] [97, 98] t := by
      intro t ht hlast
      cases hlast with
      | last _ hnone => exact hnone (List.prefix_append _ t).isInfix
      | cut _ _ _ => exact absurd ht (by simp)
    generalize hsrc : ([97, 97, 98] : List Byte) = src at hsettles
    cases hsettles with
    | last hnone _ => exact absurd hnone (hsrc ▸ by decide)
    | @cut _ p rest hcut _ hrest =>
      have hat : FirstAt [97, 98] ([97] ++ [97, 98] ++ [] : List Byte) 1 :=
        ⟨by decide, by decide⟩
      have hlen : p.length = 1 := hcut.unique (hsrc ▸ hat)
      rw [List.append_assoc] at hsrc
      obtain ⟨rfl, hbehind⟩ := @List.append_inj _ p [97] _ ([97, 98] ++ []) hsrc.symm hlen
      obtain rfl := List.append_cancel_left hbehind
      exact hend _ rfl hrest

/-- `a` for `a` goes on for ever. -/
theorem replaces_hangs : ¬ ∀ src srcKey dstKey : List Byte, srcKey ≠ [] → dstKey ≠ [] →
    Prog.Returns (replaces src srcKey dstKey) (.ok, replaceAll srcKey dstKey src) := by
  intro hall
  have hloop : Prog.Hangs (replaces [97] [97] [97]) :=
    Prog.Hangs.bind (Prog.Hangs.loop_stuck fun _ => rfl)
  exact hloop.not_returns _ (hall [97] [97] [97] (List.cons_ne_nil _ _) (List.cons_ne_nil _ _))

/-! ## Removes -/

theorem removes_returns_iff (hkey : key ≠ []) :
    Prog.Returns (removes src key) (.ok, r) ↔ Rewrites key [] src r := by
  rw [← whileOk_returns_iff (remove_replacesFirst hkey)]
  exact ⟨Prog.Returns.of_map ok_injective, Prog.Returns.map⟩

theorem removes_nil (src : List Byte) : Prog.Returns (removes src []) (.ok, src) := by
  have hbody : ∀ m, okStep (fun src => remove src []) src m = .ok (.exit src) := by
    intro m
    cases src with
    | nil => rfl
    | cons c s => rfl
  exact (Prog.Returns.loop_exit ⟨0, fun m _ => hbody m⟩).map

/-- **Removing reaches a fixpoint.** -/
theorem removes_fixpoint (src key : List Byte) :
    ∃ r, Prog.Returns (removes src key) (.ok, r) ∧
      (key ≠ [] → ¬ key <:+: r ∧ r.Sublist src ∧ (∃ n, src.length = r.length + n * key.length) ∧
        (¬ key <:+: src → r = src) ∧ Prog.Returns (removes r key) (.ok, r)) := by
  by_cases hkey : key = []
  · subst hkey
    exact ⟨src, removes_nil src, fun h => absurd rfl h⟩
  · have hshorter : ([] : List Byte).length < key.length := List.length_pos_iff.mpr hkey
    obtain ⟨r, hrun⟩ := Rewrites.exists_of_shorter hshorter src
    refine ⟨r, (removes_returns_iff hkey).mpr hrun, fun _ => ⟨hrun.not_occurs, hrun.sublist, ?_,
      hrun.eq_self, (removes_returns_iff hkey).mpr (.done hrun.not_occurs)⟩⟩
    obtain ⟨n, hn⟩ := hrun.length_eq
    exact ⟨n, hn⟩

end Str
end Huicpp
