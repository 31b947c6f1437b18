import Mathlib
import Huicpp.Net.ParseNet

/-!
# Net.AddrTexts

Addresses, their texts, and back.

* `stringIpToInt_toStringIp`, `parse_toString`: these two ways give back what they were given.
* `getStringFromNet_back_iff`, `getStringFromNet_reports_iff`: `GetStringFromNet` reports the port as
  it is in memory. That is the port when both of its bytes are equal.
* `texts_inverse_iff`: all of them.
-/

namespace Huicpp
namespace Net

open Cxx Cxx.Text Str

/-! ## Dotted decimals -/

theorem inetNtoa_eq (addr : BitVec 32) : ∃ b1 b2 b3 b4 : Byte, leBytes 4 addr.toNat = [b1, b2, b3, b4] ∧
    inetNtoa addr = decimal b1.toNat ++ dot :: (decimal b2.toNat ++ dot ::
      (decimal b3.toNat ++ dot :: decimal b4.toNat)) := by
  obtain ⟨b1, b2, b3, b4, hbytes⟩ := List.length_eq_four.mp (leBytes_length 4 addr.toNat)
  refine ⟨b1, b2, b3, b4, hbytes, ?_⟩
  rw [inetNtoa, hbytes]
  simp [List.intercalate_cons_of_ne_nil]

theorem inetNtoa_chars (addr : BitVec 32) : ∀ b ∈ inetNtoa addr, isDigit b = true ∨ b = dot := by
  obtain ⟨b1, b2, b3, b4, _, htext⟩ := inetNtoa_eq addr
  intro b hb
  simp only [htext, List.mem_append, List.mem_cons] at hb
  rcases hb with h | h | h | h | h | h | h
  · exact .inl (isDigit_decimal b h)
  · exact .inr h
  · exact .inl (isDigit_decimal b h)
  · exact .inr h
  · exact .inl (isDigit_decimal b h)
  · exact .inr h
  · exact .inl (isDigit_decimal b h)

theorem decimal_byte_length (b : Byte) : (decimal b.toNat).length ≤ 3 := by
  have hb := b.isLt
  exact decimal_length_le (by decide) (by omega)

theorem inetNtoa_length (addr : BitVec 32) : (inetNtoa addr).length ≤ 15 := by
  obtain ⟨b1, b2, b3, b4, _, htext⟩ := inetNtoa_eq addr
  have h1 := decimal_byte_length b1
  have h2 := decimal_byte_length b2
  have h3 := decimal_byte_length b3
  have h4 := decimal_byte_length b4
  simp only [htext, List.length_append, List.length_cons]
  omega

/-- The addresses of four decimal numbers, as `inet_addr` reads them. -/
def dottedQuad (cp : List Byte) : Option (BitVec 32) :=
  let ds := cp.splitOn dot
  if ds.length = 4 ∧ ∀ d ∈ ds, ¬ d.isEmpty ∧ d.all isDigit ∧ number d ≤ 255 then
    some (BitVec.ofNat 32 (leNat (ds.map fun d => BitVec.ofNat 8 (number d))))
  else none

theorem dottedQuad_inetNtoa (addr : BitVec 32) : dottedQuad (inetNtoa addr) = some addr := by
  have hlen := leBytes_length 4 addr.toNat
  have hsplit : (inetNtoa addr).splitOn dot = (leBytes 4 addr.toNat).map fun b => decimal b.toNat := by
    refine List.splitOn_intercalate dot ?_ ?_
    · intro d hd hdot
      obtain ⟨b, _, rfl⟩ := List.mem_map.mp hd
      exact absurd (isDigit_decimal dot hdot) (by decide)
    · exact List.ne_nil_of_length_pos (by rw [List.length_map, hlen]; decide)
  have hquad : ∀ d ∈ (leBytes 4 addr.toNat).map (fun b => decimal b.toNat),
      ¬ d.isEmpty ∧ d.all isDigit ∧ number d ≤ 255 := by
    intro d hd
    obtain ⟨b, _, rfl⟩ := List.mem_map.mp hd
    have hb := b.isLt
    rw [List.isEmpty_iff, List.all_eq_true, number_decimal]
    exact ⟨decimal_ne_nil _, isDigit_decimal, by omega⟩
  have hback : ((leBytes 4 addr.toNat).map fun b => decimal b.toNat).map
      (fun d => BitVec.ofNat 8 (number d)) = leBytes 4 addr.toNat := by
    rw [List.map_map]
    refine (List.map_congr_left fun b _ => ?_).trans (List.map_id _)
    rw [Function.comp_apply, number_decimal, BitVec.ofNat_toNat, BitVec.setWidth_eq]
    rfl
  rw [dottedQuad, hsplit, if_pos ⟨by rw [List.length_map, hlen], hquad⟩, hback, leNat_leBytes]
  congr 1
  apply BitVec.eq_of_toNat_eq
  rw [BitVec.toNat_ofNat]
  have hlt := addr.isLt
  omega

/-! ## There and back -/

/-- A socket address that `init` made. -/
def stored (addr : BitVec 32) (port : BitVec 16) : SockaddrIn := init .zero addr port.toNat

theorem stored_eq (addr : BitVec 32) (port : BitVec 16) :
    stored addr port = ⟨afInet, htons port, addr, 0⟩ := by
  rw [stored, init, BitVec.ofInt_natCast, BitVec.ofNat_toNat, BitVec.setWidth_eq]
  rfl

variable {accepts : List Byte → Option (BitVec 32)}

theorem stringIpToInt_toStringIp (hinverse : ∀ x, accepts (inetNtoa x) = some x) (x : BitVec 32) :
    stringIpToInt accepts (toStringIp x) = x := by
  rw [stringIpToInt, toStringIp, inetAddr, hinverse, Option.getD_some, ntohl_htonl]

theorem toString_stored (addr : BitVec 32) (port : BitVec 16) :
    toString (stored addr port) = .ok (inetNtoa addr ++ colon :: decimal port.toNat) := by
  have hinfo : getAddrInfo (stored addr port) = (inetNtoa addr, (port.toNat : Int)) := by
    rw [stored_eq, getAddrInfo, ntohs_htons]
  have hzero : 0 ∉ inetNtoa addr := fun h => absurd (inetNtoa_chars addr 0 h) (by decide)
  have hexpand : expand [.s (inetNtoa addr), .text [colon], .d port.toNat] =
      inetNtoa addr ++ colon :: decimal port.toNat := by
    simp only [expand, List.flatMap_cons, List.flatMap_nil, Piece.bytes, cStr_eq_self hzero]
    rw [decimalInt, if_neg (by omega)]
    simp
  have hnoZero : 0 ∉ expand [.s (inetNtoa addr), .text [colon], .d port.toNat] := by
    rw [hexpand, List.mem_append, List.mem_cons]
    rintro (h | h | h)
    · exact hzero h
    · exact absurd h (by decide)
    · exact absurd (isDigit_decimal 0 h) (by decide)
  have hport := port.isLt
  have hfits : (inetNtoa addr ++ colon :: decimal port.toNat).length < hstringLen := by
    have hip := inetNtoa_length addr
    have hdigits : (decimal port.toNat).length ≤ 5 := decimal_length_le (by decide) (by omega)
    rw [List.length_append, List.length_cons, hstringLen, hwordLen]
    omega
  rw [toString, hinfo]
  show format _ = _
  rw [format_eq hnoZero, hexpand, if_pos hfits]

theorem parse_toString (hinverse : ∀ x, accepts (inetNtoa x) = some x) (addr : BitVec 32)
    (port : BitVec 16) : ∃ s, toString (stored addr port) = .ok s ∧
      parseNetFromString accepts s = .ok (.ok, stored addr port) := by
  have hport := port.isLt
  have hform : HostPort accepts (inetNtoa addr ++ colon :: decimal port.toNat) addr port.toNat :=
    ⟨_, _, rfl, inetNtoa_chars addr, hinverse addr, decimal_ne_nil _, isDigit_decimal,
      number_decimal _, by omega⟩
  refine ⟨_, toString_stored addr port, ?_⟩
  rw [parse_hostPort hform, stored_eq, netOf, BitVec.ofNat_toNat, BitVec.setWidth_eq]

/-- `GetStringFromNet` and then `SetupNetWithIpString` -/
def back (accepts : List Byte → Option (BitVec 32)) (a b : SockaddrIn) : SockaddrIn :=
  (setupNetWithIpString accepts (getStringFromNet a).1 (getStringFromNet a).2 b).2

theorem getStringFromNet_back_iff (hinverse : ∀ x, accepts (inetNtoa x) = some x) (addr : BitVec 32)
    (port : BitVec 16) (b : SockaddrIn) :
    (back accepts (stored addr port) b).sAddr = (stored addr port).sAddr ∧
      ((back accepts (stored addr port) b).sinPort = (stored addr port).sinPort ↔
        port.toNat / 256 = port.toNat % 256) := by
  rw [stored_eq, back, getStringFromNet, setupNetWithIpString, inetAddr, hinverse]
  refine ⟨rfl, ?_⟩
  show htons (BitVec.ofInt 16 (htons port).toNat) = htons port ↔ _
  rw [BitVec.ofInt_natCast, BitVec.ofNat_toNat, BitVec.setWidth_eq, ← htons_eq_self_iff]
  have htwice : htons (htons port) = port := ntohs_htons port
  rw [htwice]
  exact eq_comm

theorem getStringFromNet_reports_iff (addr : BitVec 32) (port : BitVec 16) :
    getStringFromNet (stored addr port) = getAddrInfo (stored addr port) ↔
      port.toNat / 256 = port.toNat % 256 := by
  rw [stored_eq, getStringFromNet, getAddrInfo, ntohs_htons, Prod.mk.injEq, and_iff_right rfl,
    Int.natCast_inj, BitVec.toNat_inj, htons_eq_self_iff]

/-- **Addresses and texts.** `StringIpToInt` and `ParseNetFromString` give back what `ToStringIp` and
`ToString` were given. `GetStringFromNet` reports what `GetAddrInfo` does, and `SetupNetWithIpString`
makes the same socket address of it, exactly for the ports whose two bytes are equal. -/
theorem texts_inverse_iff (accepts : List Byte → Option (BitVec 32))
    (hinverse : ∀ x, accepts (inetNtoa x) = some x) :
    (∀ x, stringIpToInt accepts (toStringIp x) = x) ∧
    ∀ (addr : BitVec 32) (port : BitVec 16) (b : SockaddrIn),
      (∃ s, toString (stored addr port) = .ok s ∧
        parseNetFromString accepts s = .ok (.ok, stored addr port)) ∧
      ((back accepts (stored addr port) b).sAddr = (stored addr port).sAddr ∧
        ((back accepts (stored addr port) b).sinPort = (stored addr port).sinPort ↔
          port.toNat / 256 = port.toNat % 256)) ∧
      (getStringFromNet (stored addr port) = getAddrInfo (stored addr port) ↔
        port.toNat / 256 = port.toNat % 256) :=
  ⟨stringIpToInt_toStringIp hinverse, fun addr port b => ⟨parse_toString hinverse addr port,
    getStringFromNet_back_iff hinverse addr port b, getStringFromNet_reports_iff addr port⟩⟩

/-- `127.0.0.1:257` -/
theorem texts_inverse_iff_loopback :
    stringIpToInt dottedQuad (toStringIp 0x7F000001) = 0x7F000001 ∧
    getStringFromNet (stored 0x0100007F 257) = getAddrInfo (stored 0x0100007F 257) := by
  obtain ⟨hint, hnet⟩ := texts_inverse_iff dottedQuad dottedQuad_inetNtoa
  exact ⟨hint 0x7F000001, (hnet 0x0100007F 257 .zero).2.2.mpr (by decide)⟩

/-- Port 80 is reported as 20480. -/
theorem getStringFromNet_swapped : ¬ ∀ (addr : BitVec 32) (port : BitVec 16),
    getStringFromNet (stored addr port) = getAddrInfo (stored addr port) := by
  intro hall
  have hport := congrArg Prod.snd (hall 0x0100007F 80)
  have hbytes : (getStringFromNet (stored 0x0100007F 80)).2 = 20480 := by decide
  have hread : (getAddrInfo (stored 0x0100007F 80)).2 = 80 := by decide
  rw [hbytes, hread] at hport
  cases hport

end Net
end Huicpp
