import Mathlib
import Huicpp.Net.HIp4Addr

/-!
# Net.ParseNet

Which texts `ParseNetFromString` handles as a parser of `address:port` would.

* `parse_hostPort`: a text of that form gives its address and its port.
* `parse_rejected`: a text whose part before the first colon cannot be an address, or that has nothing
  behind it, gives an error code.
* `parses_iff`: every other text is taken for an address, or an exception comes out.
-/

namespace Huicpp
namespace Net

open Cxx Cxx.Text Str

/-- An address that `inet_addr` accepts, and the digits of a port. -/
def HostPort (accepts : List Byte → Option (BitVec 32)) (s : List Byte) (addr : BitVec 32)
    (port : Nat) : Prop :=
  ∃ t p, s = t ++ colon :: p ∧ (∀ b ∈ t, isDigit b = true ∨ b = dot) ∧ accepts t = some addr ∧
    p ≠ [] ∧ (∀ b ∈ p, isDigit b = true) ∧ number p = port ∧ port ≤ 65535

/-- The socket address of `addr` and `port`. -/
def netOf (addr : BitVec 32) (port : Nat) : SockaddrIn where
  sinFamily := afInet
  sinPort := htons (BitVec.ofNat 16 port)
  sAddr := addr
  sinZero := 0

/-- What a parser is to do: no exception, `OK` for these texts only, and then the right address. -/
def Parses (accepts : List Byte → Option (BitVec 32)) (s : List Byte) : Prop :=
  ∃ ret net, parseNetFromString accepts s = .ok (ret, net) ∧
    (ret = .ok ↔ ∃ addr port, HostPort accepts s addr port) ∧
    ∀ addr port, HostPort accepts s addr port → net = netOf addr port

/-- The texts that are refused. -/
inductive Rejected (s : List Byte) : Prop where
  | noColon : colon ∉ s → Rejected s
  | noPort (t : List Byte) : colon ∉ t → s = t ++ [colon] → Rejected s
  | noAddress (t p : List Byte) (b : Byte) : colon ∉ t → s = t ++ colon :: p → b ∈ t →
      ¬ (isDigit b = true ∨ b = dot) → Rejected s

variable {accepts : List Byte → Option (BitVec 32)} {s : List Byte} {addr addr' : BitVec 32}
  {port port' : Nat}

theorem HostPort.unique (h : HostPort accepts s addr port) (h' : HostPort accepts s addr' port') :
    addr = addr' ∧ port = port' := by
  obtain ⟨t, p, rfl, ht, haddr, _, _, hport, _⟩ := h
  obtain ⟨t', p', hs, ht', haddr', _, _, hport', _⟩ := h'
  obtain ⟨rfl, rfl⟩ := cut_inj (colon_not_mem ht) (colon_not_mem ht') hs
  exact ⟨Option.some.inj (haddr.symm.trans haddr'), hport.symm.trans hport'⟩

theorem HostPort.not_rejected (h : HostPort accepts s addr port) : ¬ Rejected s := by
  obtain ⟨t, p, rfl, ht, _, hp, _⟩ := h
  intro hrejected
  cases hrejected with
  | noColon hnone => exact hnone (by simp)
  | noPort t' ht' hs =>
    obtain ⟨_, hnil⟩ := cut_inj (colon_not_mem ht) ht' hs
    exact hp hnil
  | noAddress t' p' b ht' hs hb hbad =>
    obtain ⟨rfl, _⟩ := cut_inj (colon_not_mem ht) ht' hs
    exact hbad (ht b hb)

theorem parse_hostPort (h : HostPort accepts s addr port) :
    parseNetFromString accepts s = .ok (.ok, netOf addr port) := by
  obtain ⟨t, p, rfl, ht, haddr, hp, hdigits, rfl, hle⟩ := h
  have hport : toN p = .ok (number p : Int) := by
    rw [toN, stoi_digits hp hdigits, if_pos (by omega)]
  rw [parse_eq (colon_not_mem ht) hp, if_neg (not_not.mpr (isIpStr_iff.mpr ht)), hport,
    Outcome.ok_bind, setupNetWithIpString, inetAddr, haddr]
  simp [netOf, SockaddrIn.zero, BitVec.ofInt_natCast]

theorem parse_rejected (h : Rejected s) :
    parseNetFromString accepts s = .ok (.invlPara, .zero) := by
  cases h with
  | noColon hnone => exact parse_noColon hnone
  | noPort t ht hs =>
    rw [hs]
    exact parse_noPort ht
  | noAddress t p b ht hs hb hbad =>
    rw [hs]
    by_cases hp : p = []
    · subst hp
      exact parse_noPort ht
    · rw [parse_eq ht hp, if_pos fun hip => hbad (isIpStr_iff.mp hip b hb)]

theorem parse_passes (h : ¬ Rejected s) {ret : HRet} {net : SockaddrIn}
    (hparse : parseNetFromString accepts s = .ok (ret, net)) : ret = .ok := by
  have hcolon : colon ∈ s := by
    by_contra hnone
    exact h (.noColon hnone)
  obtain ⟨t, p, rfl, ht⟩ := List.eq_append_cons_of_mem hcolon
  have hp : p ≠ [] := by
    rintro rfl
    exact h (.noPort t ht rfl)
  have hip : isIpStr t = true := by
    rw [isIpStr_iff]
    intro b hb
    by_contra hbad
    exact h (.noAddress t p b ht rfl hb hbad)
  rw [parse_eq ht hp, if_neg (not_not.mpr hip)] at hparse
  obtain ⟨iPort, _, hset⟩ := Outcome.bind_eq_ok.mp hparse
  cases hset
  rfl

/-- **Parsing `address:port`.** The function does what a parser is to do for the texts that have this
form, and for those that it refuses. -/
theorem parses_iff (accepts : List Byte → Option (BitVec 32)) (s : List Byte) :
    Parses accepts s ↔ (∃ addr port, HostPort accepts s addr port) ∨ Rejected s := by
  constructor
  · rintro ⟨ret, net, hparse, hok, _⟩
    by_cases hrejected : Rejected s
    · exact .inr hrejected
    · exact .inl (hok.mp (parse_passes hrejected hparse))
  · rintro (⟨addr, port, h⟩ | hrejected)
    · refine ⟨.ok, netOf addr port, parse_hostPort h, iff_of_true rfl ⟨addr, port, h⟩, ?_⟩
      intro addr' port' h'
      obtain ⟨rfl, rfl⟩ := h.unique h'
      rfl
    · refine ⟨.invlPara, .zero, parse_rejected hrejected, ?_, fun addr port h =>
        absurd hrejected h.not_rejected⟩
      exact iff_of_false (fun h => by cases h) fun ⟨_, _, h⟩ => h.not_rejected hrejected

/-- `1:x` -/
theorem parse_throws : ¬ ∀ s : List Byte, Parses (fun _ => some 0x01000000) s := by
  intro hall
  obtain ⟨ret, net, hparse, _⟩ := hall [49, colon, charByte 'x']
  have hthrows : parseNetFromString (fun _ => some 0x01000000) [49, colon, charByte 'x'] =
      .throws .invalidArgument := rfl
  rw [hthrows] at hparse
  cases hparse

end Net
end Huicpp
