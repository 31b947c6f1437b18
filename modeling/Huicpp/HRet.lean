import Mathlib
import Huicpp.Cxx.Prog

/-!
# HRet

The library's error codes, and `HNOTOK_RETURN`. A function with an output parameter gives the code
together with the parameter's value on return.
-/

namespace Huicpp

open Cxx

inductive HRet where
  | ok
  | invlPara
  | errStatus
  | srcErr
  | depError
  | overFlow
  deriving DecidableEq, Repr

/-- `HNOTOK_RETURN(seg)` followed by `rest`: an error code is returned at once, leaving `out` in
the output parameter. -/
def hnotokReturn {α β : Type} (seg : Outcome (HRet × α)) (out : β)
    (rest : α → Outcome (HRet × β)) : Outcome (HRet × β) := do
  let (ret, a) ← seg
  if ret = .ok then rest a else return (ret, out)

@[simp] theorem hnotokReturn_ok {α β : Type} (a : α) (out : β)
    (rest : α → Outcome (HRet × β)) : hnotokReturn (.ok (.ok, a)) out rest = rest a := rfl

theorem hnotokReturn_eq_ok {α β : Type} {seg : Outcome (HRet × α)} {out b : β}
    {rest : α → Outcome (HRet × β)} (h : hnotokReturn seg out rest = .ok (.ok, b)) :
    ∃ a, seg = .ok (.ok, a) ∧ rest a = .ok (.ok, b) := by
  obtain ⟨⟨ret, a⟩, hs, hr⟩ := Outcome.bind_eq_ok.mp h
  simp only at hr
  split at hr
  · rename_i hret
    subst hret
    exact ⟨a, hs, hr⟩
  · rename_i hret
    cases hr
    exact absurd rfl hret

end Huicpp
