import Mathlib
import Huicpp.Cxx.ByteOrder
import Huicpp.Net.Ip4Str
import Huicpp.Str.Format

/-!
# Net.HIp4Addr

Socket addresses and their texts. `inet_addr` is given by the texts that it accepts, with the address
that each of them stands for; for others it returns `INADDR_NONE`, which is an address too.
-/

namespace Huicpp
namespace Net

open Cxx Cxx.Text Str

def colon : Byte := charByte ':'

def afInet : BitVec 16 := 2

def inaddrNone : BitVec 32 := 0xFFFFFFFF

/-- `struct sockaddr_in`. The port and the address are in network byte order. -/
structure SockaddrIn where
  sinFamily : BitVec 16
  sinPort : BitVec 16
  sAddr : BitVec 32
  sinZero : BitVec 64
  deriving DecidableEq, Repr

/-- After `memset(&net, 0, sizeof(net))` -/
def SockaddrIn.zero : SockaddrIn := ⟨0, 0, 0, 0⟩

/-- `inet_ntoa`: the bytes of the address, as they are in memory. -/
def inetNtoa (addr : BitVec 32) : List Byte :=
  [dot].intercalate ((leBytes 4 addr.toNat).map fun b => decimal b.toNat)

/-- `HIp4Addr::init` -/
def init (mAddr : SockaddrIn) (addrBytes : BitVec 32) (port : Int) : SockaddrIn :=
  { mAddr with sinFamily := afInet, sinPort := htons (BitVec.ofInt 16 port), sAddr := addrBytes }

/-- `HIp4Addr::GetAddrInfo` -/
def getAddrInfo (mAddr : SockaddrIn) : List Byte × Int :=
  (inetNtoa mAddr.sAddr, (ntohs mAddr.sinPort).toNat)

/-- `HIp4Addr::ToString` -/
def toString (mAddr : SockaddrIn) : Outcome (List Byte) :=
  let (strIp, port) := getAddrInfo mAddr
  format [.s strIp, .text [colon], .d port]

/-- `HIp4Addr::ToStringIp` -/
def toStringIp (ll : BitVec 32) : List Byte := inetNtoa (htonl ll)

/-- `HIp4Addr::GetStringFromNet` -/
def getStringFromNet (addr : SockaddrIn) : List Byte × Int :=
  (inetNtoa addr.sAddr, addr.sinPort.toNat)

/-- The lambda in `ParseNetFromString` -/
def isIpStr (ip : List Byte) : Bool := findFirstNotOf ip (Str.digits ++ [dot]) == npos

section Calls

variable (accepts : List Byte → Option (BitVec 32))

def inetAddr (cp : List Byte) : BitVec 32 := (accepts cp).getD inaddrNone

/-- `HIp4Addr::StringIpToInt` -/
def stringIpToInt (strIp : List Byte) : BitVec 32 := ntohl (inetAddr accepts strIp)

/-- `HIp4Addr::SetupNetWithIpString`. The result has the final `net`. -/
def setupNetWithIpString (ip : List Byte) (port : Int) (net : SockaddrIn) : HRet × SockaddrIn :=
  (.ok, { net with
    sinFamily := afInet
    sinPort := htons (BitVec.ofInt 16 port)
    sAddr := inetAddr accepts ip })

/-- `HIp4Addr::ParseNetFromString` -/
def parseNetFromString (str : List Byte) : Outcome (HRet × SockaddrIn) := do
  let net := SockaddrIn.zero
  match find str [colon] 0 with
  | none => return (.invlPara, net)
  | some pos =>
    if some pos = Pos.pred str.length then return (.invlPara, net)
    let ssip ← substr str 0 (some pos)
    if ¬ isIpStr ssip then return (.invlPara, net)
    let rest ← substr str (pos + 1) npos
    let iPort ← toN rest
    return setupNetWithIpString accepts ssip iPort net

end Calls

theorem isIpStr_iff {ip : List Byte} :
    isIpStr ip = true ↔ ∀ b ∈ ip, isDigit b = true ∨ b = dot := by
  rw [isIpStr, beq_iff_eq, findFirstNotOf_eq_npos]
  refine forall₂_congr fun b _ => ?_
  rw [List.mem_append, mem_digits, List.mem_singleton]

theorem colon_not_mem {ip : List Byte} (h : ∀ b ∈ ip, isDigit b = true ∨ b = dot) : colon ∉ ip := by
  intro hmem
  exact absurd (h colon hmem) (by decide)

/-! ## Parsing -/

section Parse

variable {accepts : List Byte → Option (BitVec 32)} {t p : List Byte}

theorem find_colon (ht : colon ∉ t) (p : List Byte) : find (t ++ colon :: p) [colon] 0 = some t.length := by
  have hdisjoint : t.Disjoint [colon] := by
    rw [List.disjoint_singleton]
    exact ht
  have hfirst := firstAt_of_disjoint (List.cons_ne_nil colon []) hdisjoint p
  have hwhole : t ++ colon :: p = t ++ [colon] ++ p := by simp
  rw [hwhole, find_first (Nat.zero_le _) rfl hfirst, Nat.zero_add]

theorem parse_noColon {str : List Byte} (h : colon ∉ str) :
    parseNetFromString accepts str = .ok (.invlPara, .zero) := by
  have hfind : find str [colon] 0 = none :=
    find_npos (Nat.zero_le _) fun hoccurs => h (hoccurs.subset (List.mem_singleton_self colon))
  simp only [parseNetFromString, hfind]
  rfl

theorem parse_noPort (ht : colon ∉ t) :
    parseNetFromString accepts (t ++ [colon]) = .ok (.invlPara, .zero) := by
  have hlast : some t.length = Pos.pred (t ++ [colon]).length := by
    rw [List.length_append, List.length_singleton, Pos.pred]
  simp only [parseNetFromString, find_colon ht [], if_pos hlast]
  rfl

theorem parse_eq (ht : colon ∉ t) (hp : p ≠ []) :
    parseNetFromString accepts (t ++ colon :: p) =
      if ¬ isIpStr t then .ok (.invlPara, .zero)
      else toN p >>= fun iPort => .ok (setupNetWithIpString accepts t iPort .zero) := by
  have hpos : 0 < p.length := List.length_pos_iff.mpr hp
  have hlen : (t ++ colon :: p).length = t.length + p.length + 1 := by
    rw [List.length_append, List.length_cons, Nat.add_assoc]
  have hlast : ¬ some t.length = Pos.pred (t ++ colon :: p).length := by
    rw [hlen, Pos.pred, Option.some.injEq]
    omega
  have hfront : substr (t ++ colon :: p) 0 (some t.length) = .ok t := substr_piece (Nat.zero_le _) rfl
  have hbehind : substr (t ++ colon :: p) (t.length + 1) npos = .ok p := by
    have hcut : (t ++ colon :: p).drop (t.length + 1) = p := by
      rw [← List.drop_drop, List.drop_left]
      rfl
    rw [substr_rest (by omega), hcut]
  simp only [parseNetFromString, find_colon ht p, if_neg hlast, hfront, hbehind, Outcome.ok_bind]
  rfl

end Parse

end Net
end Huicpp
