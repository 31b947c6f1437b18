import Mathlib
import Huicpp.Cxx.Heap
import Huicpp.Crypto.Transport

/-!
# Crypto.OutputBlock

`Des3` with the block that the ciphertext is written to, over what it uses of a cipher context. The
block is twice as long as the input.

* `Evp`: the calls, and how much they write. `Evp.ecb` is electronic codebook mode.
* `cipher_inside`, `cipher_outside`: the calls write into the block, if what they write is not longer.
* `staysInside_iff`: for which inputs it is not.
-/

namespace Huicpp
namespace Crypto

open Cxx Cxx.HeapM

/-- Cipher contexts. A call gives its return value, the bytes it writes and the context after it.

An initialised context pads, unless it is told not to after the initialisation. -/
structure Evp where
  Key : Type
  Ctx : Type
  bytesToKey : List Byte → Key
  ctxNew : Ctx
  setPadding : Ctx → Int → Ctx
  encryptInit : Ctx → Key → Int × Ctx
  encryptUpdate : Ctx → List Byte → Int → Int × List Byte × Ctx
  encryptFinal : Ctx → Int × List Byte × Ctx
  decryptInit : Ctx → Key → Int × Ctx
  decryptUpdate : Ctx → List Byte → Int → Int × List Byte × Ctx
  decryptFinal : Ctx → Int × List Byte × Ctx
  encryptInit_ok : ∀ ctx key, (encryptInit ctx key).1 = 1
  encrypt_padded : ∀ ctx key inp, inp.length < 2 ^ 29 →
    let update := encryptUpdate (encryptInit ctx key).2 inp inp.length
    let final := encryptFinal update.2.2
    update.1 = 1 ∧ final.1 = 1 ∧
      update.2.1.length + final.2.1.length = 8 * (inp.length / 8 + 1)
  encrypt_unpadded : ∀ ctx key inp, inp.length < 2 ^ 29 →
    let update := encryptUpdate (setPadding (encryptInit ctx key).2 0) inp inp.length
    let final := encryptFinal update.2.2
    update.1 = 1 ∧ (final.1 = 1 ↔ 8 ∣ inp.length) ∧
      (8 ∣ inp.length → update.2.1.length + final.2.1.length = inp.length)
  decrypt_le : ∀ ctx key inp, inp.length < 2 ^ 29 →
    let update := decryptUpdate (decryptInit ctx key).2 inp inp.length
    let final := decryptFinal update.2.2
    update.2.1.length + final.2.1.length ≤ inp.length

namespace Evp

variable (evp : Evp)

/-- What `des3_encrypt` and `des3_decrypt` do with a context: the return code and the final
`outlen`. -/
def cipher (init : evp.Ctx → evp.Key → Int × evp.Ctx)
    (update : evp.Ctx → List Byte → Int → Int × List Byte × evp.Ctx)
    (final : evp.Ctx → Int × List Byte × evp.Ctx) (ctx : evp.Ctx) (inp : List Byte) (inlen : Int)
    (out : HeapPtr) (password : List Byte) : HeapM Byte (HRet × Nat) := do
  let key := evp.bytesToKey password
  let (rv, ctx) := init ctx key
  if rv ≠ 1 then return (.depError, 0)
  let (rv, bytes, ctx) := update ctx inp inlen
  store out 0 bytes
  let outlen := bytes.length
  if rv ≠ 1 then return (.depError, outlen)
  let (rv, bytes, _) := final ctx
  store out outlen bytes
  if rv ≠ 1 then return (.depError, outlen)
  return (.ok, outlen + bytes.length)

/-- `des3_encrypt`. Padding is turned off before the initialisation. -/
def des3Encrypt (inp : List Byte) (inlen : Int) (out : HeapPtr) (password : List Byte) :
    HeapM Byte (HRet × Nat) :=
  evp.cipher evp.encryptInit evp.encryptUpdate evp.encryptFinal (evp.setPadding evp.ctxNew 0)
    inp inlen out password

/-- `des3_decrypt` -/
def des3Decrypt (inp : List Byte) (inlen : Int) (out : HeapPtr) (password : List Byte) :
    HeapM Byte (HRet × Nat) :=
  evp.cipher evp.decryptInit evp.decryptUpdate evp.decryptFinal evp.ctxNew inp inlen out password

/-- What the three functions of `Des3` do with the block: it is filled, copied to `dst` and freed. -/
def withBlock (address : Outcome Unit)
    (fill : List Byte → Int → HeapPtr → List Byte → HeapM Byte (HRet × Nat))
    (src passwd : List Byte) : HeapM Byte (HRet × List Byte) := do
  let outlen := toHN (src.length * 2)
  let outptr ← malloc (asSizeT outlen)
  onExit (free outptr) do
    liftM address
    let (ret, outlen) ← fill src (toHN src.length) outptr passwd
    if ret ≠ .ok then return (ret, [])
    let dst ← assign outptr outlen
    return (.ok, dst)

/-- `Des3::Encrypt(HCSTRR, ..)`, which takes `src.c_str()`. -/
def encryptStr (src passwd : List Byte) : HeapM Byte (HRet × List Byte) :=
  withBlock (.ok ()) evp.des3Encrypt src passwd

/-- `Des3::Encrypt(HMEMR, ..)`, which takes `&src[0]`. -/
def encryptMem (src passwd : List Byte) : HeapM Byte (HRet × List Byte) :=
  withBlock (frontAddress src) evp.des3Encrypt src passwd

/-- `Des3::Decrypt`, which takes `&src[0]`. -/
def decryptMem (src passwd : List Byte) : HeapM Byte (HRet × List Byte) :=
  withBlock (frontAddress src) evp.des3Decrypt src passwd

/-- The bytes that the calls of `des3_encrypt` write. -/
def encrypted (src passwd : List Byte) : List Byte :=
  let ctx := (evp.encryptInit (evp.setPadding evp.ctxNew 0) (evp.bytesToKey passwd)).2
  let update := evp.encryptUpdate ctx src src.length
  update.2.1 ++ (evp.encryptFinal update.2.2).2.1

/-- The bytes that the calls of `des3_decrypt` write. -/
def decrypted (src passwd : List Byte) : List Byte :=
  let ctx := (evp.decryptInit evp.ctxNew (evp.bytesToKey passwd)).2
  let update := evp.decryptUpdate ctx src src.length
  update.2.1 ++ (evp.decryptFinal update.2.2).2.1

end Evp

/-- The functions of `Des3`. -/
inductive Des3Function where
  | encryptStr
  | encryptMem
  | decryptMem
  deriving DecidableEq, Repr

namespace Des3Function

def run (evp : Evp) : Des3Function → List Byte → List Byte → HeapM Byte (HRet × List Byte)
  | .encryptStr => evp.encryptStr
  | .encryptMem => evp.encryptMem
  | .decryptMem => evp.decryptMem

def written (evp : Evp) : Des3Function → List Byte → List Byte → List Byte
  | .encryptStr => evp.encrypted
  | .encryptMem => evp.encrypted
  | .decryptMem => evp.decrypted

/-- The call returns, and `dst` is what was written if it returns OK. A store outside the block, or
the address of an element of an empty vector, would be undefined. -/
def StaysInside (evp : Evp) (f : Des3Function) (src passwd : List Byte) (h : Heap Byte) : Prop :=
  ∃ ret dst h', f.run evp src passwd h = (.ok (ret, dst), h') ∧
    (ret = .ok → dst = f.written evp src passwd)

/-- The padding fits into a block of twice the input, and the input has a first byte. -/
def Fits : Des3Function → List Byte → Prop
  | .encryptStr, src => 4 ≤ src.length
  | .encryptMem, src => 4 ≤ src.length
  | .decryptMem, src => 1 ≤ src.length

end Des3Function

/-! ## The calls and the block -/

namespace Evp

variable {evp : Evp} {init : evp.Ctx → evp.Key → Int × evp.Ctx}
  {update : evp.Ctx → List Byte → Int → Int × List Byte × evp.Ctx}
  {final : evp.Ctx → Int × List Byte × evp.Ctx} {ctx ctx₁ ctx₂ ctx₃ : evp.Ctx}
  {inp password bytes bytes' : List Byte} {inlen rv rv' rv'' : Int} {h : Heap Byte} {p size : Nat}

theorem cipher_inside (hinit : init ctx (evp.bytesToKey password) = (rv, ctx₁))
    (hupdate : update ctx₁ inp inlen = (rv', bytes, ctx₂))
    (hfinal : final ctx₂ = (rv'', bytes', ctx₃))
    (hb : h.blocks p = some (List.replicate size none)) (hlen : bytes.length + bytes'.length ≤ size) :
    ∃ ret outlen b h',
      evp.cipher init update final ctx inp inlen (some p) password h = (.ok (ret, outlen), h') ∧
      h'.blocks p = some b ∧ (ret = .ok ↔ rv = 1 ∧ rv' = 1 ∧ rv'' = 1) ∧
      (ret = .ok → outlen = (bytes ++ bytes').length ∧
        ∃ rest, b = (bytes ++ bytes').map some ++ rest) := by
  have hstore : store (some p) 0 bytes h =
      (.ok (), h.setBlock p (bytes.map some ++ (List.replicate size none).drop bytes.length)) :=
    store_start hb (by rw [List.length_replicate]; omega)
  have hroom : bytes'.length ≤
      ((List.replicate size (none : Option Byte)).drop bytes.length).length := by
    rw [List.length_drop, List.length_replicate]
    omega
  have hstore' := store_append bytes (Heap.setBlock_block p _ h) hroom
  rw [cipher]
  simp only [hinit]
  by_cases hrv : rv = 1
  · simp only [hrv, ne_eq, not_true_eq_false, if_false, hupdate]
    rw [bind_ok hstore]
    by_cases hrv' : rv' = 1
    · simp only [hrv', not_true_eq_false, if_false, hfinal]
      rw [bind_ok hstore']
      by_cases hrv'' : rv'' = 1
      · rw [if_neg (not_not.mpr hrv'')]
        refine ⟨.ok, _, _, _, rfl, Heap.setBlock_block .., iff_of_true rfl ⟨trivial, trivial, hrv''⟩,
          fun _ => ⟨?_, _, rfl⟩⟩
        rw [List.length_append]
      · rw [if_pos hrv'']
        exact ⟨.depError, _, _, _, rfl, Heap.setBlock_block ..,
          iff_of_false HRet.noConfusion fun hall => hrv'' hall.2.2, fun hret => HRet.noConfusion hret⟩
    · rw [if_pos hrv']
      exact ⟨.depError, _, _, _, rfl, Heap.setBlock_block ..,
        iff_of_false HRet.noConfusion fun hall => hrv' hall.2.1, fun hret => HRet.noConfusion hret⟩
  · rw [if_pos hrv]
    exact ⟨.depError, 0, _, h, rfl, hb, iff_of_false HRet.noConfusion fun hall => hrv hall.1,
      fun hret => HRet.noConfusion hret⟩

/-- What the calls write does not fit: the first or the second store ends outside the block. -/
theorem cipher_outside (hinit : init ctx (evp.bytesToKey password) = (1, ctx₁))
    (hupdate : update ctx₁ inp inlen = (1, bytes, ctx₂))
    (hfinal : final ctx₂ = (1, bytes', ctx₃))
    (hb : h.blocks p = some (List.replicate size none)) (hlen : size < bytes.length + bytes'.length) :
    ∃ h', evp.cipher init update final ctx inp inlen (some p) password h =
      (.undef .outOfBounds, h') := by
  rw [cipher]
  simp only [hinit, ne_eq, not_true_eq_false, if_false, hupdate, hfinal]
  rcases Nat.lt_or_ge size bytes.length with hout | hin
  · have hstore : store (some p) 0 bytes h = (.undef .outOfBounds, h) :=
      store_outside hb (by rw [List.length_replicate]; omega)
    exact ⟨h, bind_undef hstore⟩
  · have hstore : store (some p) 0 bytes h =
        (.ok (), h.setBlock p (bytes.map some ++ (List.replicate size none).drop bytes.length)) :=
      store_start hb (by rw [List.length_replicate]; omega)
    have hlength : (bytes.map some ++
        (List.replicate size (none : Option Byte)).drop bytes.length).length = size := by
      rw [List.length_append, List.length_map, List.length_drop, List.length_replicate]
      omega
    have hstore' := @store_outside _ _ p bytes.length _ bytes' (Heap.setBlock_block p
      (bytes.map some ++ (List.replicate size none).drop bytes.length) h) (by omega)
    rw [bind_ok hstore]
    exact ⟨_, bind_undef hstore'⟩

/-! ## The three functions -/

variable {address : Outcome Unit} {src passwd out : List Byte}
  {fill : List Byte → Int → HeapPtr → List Byte → HeapM Byte (HRet × Nat)}

/-- The heap with the block for `src`. -/
def allocated (src : List Byte) (h : Heap Byte) : Heap Byte := h.allocate (2 * src.length)

theorem withBlock_eq (hlen : src.length < 2 ^ 29) (h : Heap Byte) :
    withBlock address fill src passwd h =
      onExit (free (some h.fresh)) (do
        liftM address
        let (ret, outlen) ← fill src src.length (some h.fresh) passwd
        if ret ≠ .ok then return (ret, [])
        let dst ← assign (some h.fresh) outlen
        return (.ok, dst)) (allocated src h) := by
  have hsize : toHN (src.length * 2) = (2 * src.length : Nat) := by
    rw [toHN_of_lt (by omega), Nat.mul_comm]
  have hmalloc := malloc_ok (β := Byte) (by omega : 2 * src.length < 2 ^ 63) h
  rw [withBlock, hsize, asSizeT_natCast (by omega), toHN_of_lt (by omega)]
  exact bind_ok hmalloc

theorem withBlock_inside (hlen : src.length < 2 ^ 29) (h : Heap Byte) (haddress : address = .ok ())
    {ret : HRet} {outlen : Nat} {b : List (Option Byte)} {h' : Heap Byte} (hout : out.length < 2 ^ 63)
    (hfill : fill src src.length (some h.fresh) passwd (allocated src h) = (.ok (ret, outlen), h'))
    (hb : h'.blocks h.fresh = some b)
    (hok : ret = .ok → outlen = out.length ∧ ∃ rest, b = out.map some ++ rest) :
    ∃ dst h'', withBlock address fill src passwd h = (.ok (ret, dst), h'') ∧
      (ret = .ok → dst = out) := by
  have haddr : (liftM address : HeapM Byte Unit) (allocated src h) = (.ok (), allocated src h) := by
    rw [haddress]
    rfl
  rw [withBlock_eq hlen]
  by_cases hret : ret = HRet.ok
  · obtain ⟨rfl, rest, rfl⟩ := hok hret
    subst hret
    exact ⟨out, _, onExit_ok ((bind_ok haddr).trans ((bind_ok hfill).trans
      (bind_ok (assign_ok hout hb)))) (free_ok hb), fun _ => rfl⟩
  · refine ⟨[], _, onExit_ok ((bind_ok haddr).trans ((bind_ok hfill).trans ?_)) (free_ok hb),
      fun h => absurd h hret⟩
    exact congrFun (if_pos hret) h'

theorem withBlock_outside (hlen : src.length < 2 ^ 29) (h : Heap Byte) (haddress : address = .ok ())
    {h' : Heap Byte}
    (hfill : fill src src.length (some h.fresh) passwd (allocated src h) =
      (.undef .outOfBounds, h')) :
    withBlock address fill src passwd h = (.undef .outOfBounds, h') := by
  have haddr : (liftM address : HeapM Byte Unit) (allocated src h) = (.ok (), allocated src h) := by
    rw [haddress]
    rfl
  rw [withBlock_eq hlen]
  exact onExit_undef ((bind_ok haddr).trans (bind_undef hfill))

theorem withBlock_empty (h : Heap Byte) :
    withBlock (frontAddress []) fill [] passwd h = (.undef .outOfBounds, allocated [] h) := by
  rw [withBlock_eq (by decide)]
  exact onExit_undef (bind_undef rfl)

theorem encrypt_calls (evp : Evp) (passwd : List Byte) (hlen : src.length < 2 ^ 29) :
    ∃ ctx₁ ctx₂ ctx₃ bytes bytes',
      evp.encryptInit (evp.setPadding evp.ctxNew 0) (evp.bytesToKey passwd) = (1, ctx₁) ∧
      evp.encryptUpdate ctx₁ src src.length = (1, bytes, ctx₂) ∧
      evp.encryptFinal ctx₂ = (1, bytes', ctx₃) ∧
      bytes.length + bytes'.length = 8 * (src.length / 8 + 1) ∧
      evp.encrypted src passwd = bytes ++ bytes' := by
  obtain ⟨hupdate, hfinal, htotal⟩ := evp.encrypt_padded (evp.setPadding evp.ctxNew 0)
    (evp.bytesToKey passwd) src hlen
  have hinit := evp.encryptInit_ok (evp.setPadding evp.ctxNew 0) (evp.bytesToKey passwd)
  exact ⟨_, _, _, _, _, Prod.ext hinit rfl, Prod.ext hupdate rfl, Prod.ext hfinal rfl, htotal, rfl⟩

theorem decrypt_calls (evp : Evp) (passwd : List Byte) (hlen : src.length < 2 ^ 29) :
    ∃ rv rv' rv'' ctx₁ ctx₂ ctx₃ bytes bytes',
      evp.decryptInit evp.ctxNew (evp.bytesToKey passwd) = (rv, ctx₁) ∧
      evp.decryptUpdate ctx₁ src src.length = (rv', bytes, ctx₂) ∧
      evp.decryptFinal ctx₂ = (rv'', bytes', ctx₃) ∧
      bytes.length + bytes'.length ≤ src.length ∧
      evp.decrypted src passwd = bytes ++ bytes' :=
  ⟨_, _, _, _, _, _, _, _, rfl, rfl, rfl,
    evp.decrypt_le evp.ctxNew (evp.bytesToKey passwd) src hlen, rfl⟩

theorem allocated_block (src : List Byte) (h : Heap Byte) :
    (allocated src h).blocks h.fresh = some (List.replicate (2 * src.length) none) :=
  Heap.allocate_block ..

theorem encrypt_inside (hfour : 4 ≤ src.length) (hlen : src.length < 2 ^ 29) (h : Heap Byte)
    (haddress : address = .ok ()) :
    ∃ h', withBlock address evp.des3Encrypt src passwd h =
      (.ok (.ok, evp.encrypted src passwd), h') := by
  obtain ⟨ctx₁, ctx₂, ctx₃, bytes, bytes', hinit, hupdate, hfinal, htotal, hwritten⟩ :=
    encrypt_calls evp passwd hlen
  obtain ⟨ret, outlen, b, h', hcipher, hb', hret, hok⟩ :=
    cipher_inside hinit hupdate hfinal (allocated_block src h) (by omega)
  obtain rfl := hret.mpr ⟨rfl, rfl, rfl⟩
  obtain ⟨dst, h'', hrun, hdst⟩ := withBlock_inside hlen h haddress
    (by rw [List.length_append]; omega) hcipher hb' hok
  rw [hwritten, ← hdst rfl]
  exact ⟨h'', hrun⟩

theorem encrypt_outside (hsmall : src.length < 4) (h : Heap Byte) (haddress : address = .ok ()) :
    ∃ h', withBlock address evp.des3Encrypt src passwd h = (.undef .outOfBounds, h') := by
  obtain ⟨ctx₁, ctx₂, ctx₃, bytes, bytes', hinit, hupdate, hfinal, htotal, hwritten⟩ :=
    encrypt_calls evp passwd (hsmall.trans (by decide))
  obtain ⟨h', hcipher⟩ : ∃ h', evp.des3Encrypt src src.length (some h.fresh) passwd
      (allocated src h) = (.undef .outOfBounds, h') :=
    cipher_outside hinit hupdate hfinal (allocated_block src h) (by omega)
  exact ⟨h', withBlock_outside (by omega) h haddress hcipher⟩

theorem encrypt_iff (hlen : src.length < 2 ^ 29) (h : Heap Byte) (haddress : address = .ok ()) :
    (∃ ret dst h', withBlock address evp.des3Encrypt src passwd h = (.ok (ret, dst), h') ∧
      (ret = .ok → dst = evp.encrypted src passwd)) ↔ 4 ≤ src.length := by
  constructor
  · rintro ⟨ret, dst, h', hrun, -⟩
    by_contra hsmall
    obtain ⟨h'', hundef⟩ := @encrypt_outside evp _ _ passwd (not_le.mp hsmall) h haddress
    rw [hundef] at hrun
    cases hrun
  · intro hfour
    obtain ⟨h', hrun⟩ := encrypt_inside hfour hlen h haddress
    exact ⟨.ok, _, h', hrun, fun _ => rfl⟩

theorem decrypt_inside (hlen : src.length < 2 ^ 29) (h : Heap Byte) (haddress : address = .ok ()) :
    ∃ ret dst h', withBlock address evp.des3Decrypt src passwd h = (.ok (ret, dst), h') ∧
      (ret = .ok → dst = evp.decrypted src passwd) := by
  obtain ⟨rv, rv', rv'', ctx₁, ctx₂, ctx₃, bytes, bytes', hinit, hupdate, hfinal, htotal, hwritten⟩ :=
    decrypt_calls evp passwd hlen
  obtain ⟨ret, outlen, b, h', hcipher, hb', -, hok⟩ :=
    cipher_inside hinit hupdate hfinal (allocated_block src h) (by omega)
  obtain ⟨dst, h'', hrun, hdst⟩ := withBlock_inside hlen h haddress
    (by rw [List.length_append]; omega) hcipher hb' hok
  exact ⟨ret, dst, h'', hrun, fun hret => (hdst hret).trans hwritten.symm⟩

end Evp

/-! ## Electronic codebook mode -/

/-- A context: the cipher on one block, whether it pads, and the bytes that wait for a whole block. -/
structure EcbCtx where
  cipher : Block → Block
  padding : Bool
  buf : List Byte

namespace EcbCtx

def encryptUpdate (ctx : EcbCtx) (inp : List Byte) (inlen : Int) : Int × List Byte × EcbCtx :=
  if inlen < 0 then (0, [], ctx)
  else
    let msg := ctx.buf ++ inp.take inlen.toNat
    (1, BlockCipher.ecb ctx.cipher (msg.length / 8) msg,
      { ctx with buf := msg.drop (8 * (msg.length / 8)) })

def encryptFinal (ctx : EcbCtx) : Int × List Byte × EcbCtx :=
  if ctx.padding then (1, BlockCipher.encrypt ctx.cipher ctx.buf, ctx)
  else if ctx.buf = [] then (1, [], ctx)
  else (0, [], ctx)

/-- With padding the last block is held back. -/
def decryptUpdate (ctx : EcbCtx) (inp : List Byte) (inlen : Int) : Int × List Byte × EcbCtx :=
  if inlen < 0 then (0, [], ctx)
  else
    let msg := ctx.buf ++ inp.take inlen.toNat
    let blocks := if ctx.padding then (msg.length - 1) / 8 else msg.length / 8
    (1, BlockCipher.ecb ctx.cipher blocks msg, { ctx with buf := msg.drop (8 * blocks) })

def decryptFinal (ctx : EcbCtx) : Int × List Byte × EcbCtx :=
  if ctx.padding then
    match BlockCipher.decrypt ctx.cipher ctx.buf with
    | some msg => (1, msg, ctx)
    | none => (0, [], ctx)
  else if ctx.buf = [] then (1, [], ctx)
  else (0, [], ctx)

theorem encryptUpdate_init (cipher : Block → Block) (padding : Bool) (inp : List Byte) :
    encryptUpdate ⟨cipher, padding, []⟩ inp inp.length =
      (1, BlockCipher.ecb cipher (inp.length / 8) inp,
        ⟨cipher, padding, inp.drop (8 * (inp.length / 8))⟩) := by
  rw [encryptUpdate, if_neg (by omega), Int.toNat_natCast, List.take_length]
  rfl

theorem decryptUpdate_init (cipher : Block → Block) (inp : List Byte) :
    decryptUpdate ⟨cipher, true, []⟩ inp inp.length =
      (1, BlockCipher.ecb cipher ((inp.length - 1) / 8) inp,
        ⟨cipher, true, inp.drop (8 * ((inp.length - 1) / 8))⟩) := by
  rw [decryptUpdate, if_neg (by omega), Int.toNat_natCast, List.take_length]
  rfl

end EcbCtx

/-- Electronic codebook mode with any permutations of blocks, keyed by what is derived from the
password. -/
def Evp.ecb {κ : Type} (bytesToKey : List Byte → κ) (des3 : κ → Equiv.Perm Block) : Evp where
  Key := κ
  Ctx := EcbCtx
  bytesToKey := bytesToKey
  ctxNew := ⟨id, true, []⟩
  setPadding ctx pad := { ctx with padding := decide (pad ≠ 0) }
  encryptInit _ key := (1, ⟨des3 key, true, []⟩)
  encryptUpdate := EcbCtx.encryptUpdate
  encryptFinal := EcbCtx.encryptFinal
  decryptInit _ key := (1, ⟨(des3 key).symm, true, []⟩)
  decryptUpdate := EcbCtx.decryptUpdate
  decryptFinal := EcbCtx.decryptFinal
  encryptInit_ok _ _ := rfl
  encrypt_padded ctx key inp _ := by
    rw [EcbCtx.encryptUpdate_init]
    refine ⟨rfl, rfl, ?_⟩
    show (BlockCipher.ecb _ _ _).length + (BlockCipher.encrypt _ _).length = _
    rw [BlockCipher.ecb_length, BlockCipher.encrypt_length, List.length_drop]
    omega
  encrypt_unpadded ctx key inp _ := by
    have hrest : inp.drop (8 * (inp.length / 8)) = [] ↔ 8 ∣ inp.length := by
      rw [List.drop_eq_nil_iff]
      omega
    simp only [ne_eq, not_true_eq_false, decide_false]
    rw [EcbCtx.encryptUpdate_init]
    by_cases hdvd : 8 ∣ inp.length
    · have hfinal : EcbCtx.encryptFinal ⟨des3 key, false, inp.drop (8 * (inp.length / 8))⟩ =
          (1, [], ⟨des3 key, false, inp.drop (8 * (inp.length / 8))⟩) := if_pos (hrest.mpr hdvd)
      rw [hfinal]
      refine ⟨rfl, iff_of_true rfl hdvd, fun _ => ?_⟩
      rw [BlockCipher.ecb_length, List.length_nil]
      omega
    · have hfinal : EcbCtx.encryptFinal ⟨des3 key, false, inp.drop (8 * (inp.length / 8))⟩ =
          (0, [], ⟨des3 key, false, inp.drop (8 * (inp.length / 8))⟩) := if_neg (mt hrest.mp hdvd)
      rw [hfinal]
      exact ⟨rfl, iff_of_false zero_ne_one hdvd, fun hdvd' => absurd hdvd' hdvd⟩
  decrypt_le ctx key inp _ := by
    rw [EcbCtx.decryptUpdate_init]
    have hfinal : (EcbCtx.decryptFinal ⟨(des3 key).symm, true,
        inp.drop (8 * ((inp.length - 1) / 8))⟩).2.1.length ≤
          (inp.drop (8 * ((inp.length - 1) / 8))).length := by
      rw [EcbCtx.decryptFinal, if_pos rfl]
      split
      · next msg hmsg => exact BlockCipher.decrypt_length_le hmsg
      · exact Nat.zero_le _
    rw [List.length_drop] at hfinal
    show (BlockCipher.ecb _ _ _).length + (EcbCtx.decryptFinal _).2.1.length ≤ _
    rw [BlockCipher.ecb_length]
    refine (Nat.add_le_add_left hfinal _).trans ?_
    omega

open Evp in
/-- **The output block.** For inputs below 2^29 bytes the functions of `Des3` stay inside the block
they allocate, and give what was written, exactly if the input has at least four bytes, or for
`Decrypt` one. -/
theorem staysInside_iff (evp : Evp) (f : Des3Function) (src passwd : List Byte) (h : Heap Byte)
    (hlen : src.length < 2 ^ 29) : f.StaysInside evp src passwd h ↔ f.Fits src := by
  cases f with
  | encryptStr => exact encrypt_iff hlen h rfl
  | encryptMem =>
    cases src with
    | nil =>
      refine iff_of_false ?_ (Nat.not_succ_le_zero _)
      rintro ⟨ret, dst, h', hrun, -⟩
      rw [show Des3Function.encryptMem.run evp [] passwd h = _ from withBlock_empty h] at hrun
      cases hrun
    | cons b bs => exact encrypt_iff hlen h rfl
  | decryptMem =>
    cases src with
    | nil =>
      refine iff_of_false ?_ (Nat.not_succ_le_zero _)
      rintro ⟨ret, dst, h', hrun, -⟩
      rw [show Des3Function.decryptMem.run evp [] passwd h = _ from withBlock_empty h] at hrun
      cases hrun
    | cons b bs => exact iff_of_true (decrypt_inside hlen h rfl) (Nat.succ_le_succ (Nat.zero_le _))

/-- Four bytes, which with padding are one block. -/
theorem staysInside_iff_four : Des3Function.encryptStr.StaysInside
    (.ecb (fun _ => ()) fun _ => Equiv.refl Block) [1, 2, 3, 4] [] .empty :=
  (staysInside_iff _ .encryptStr [1, 2, 3, 4] [] .empty (by decide)).mpr (le_refl 4)

/-- One byte: a block of padding is written to two bytes of memory. -/
theorem encrypt_overflow : ¬ Des3Function.encryptStr.StaysInside
    (.ecb (fun _ => ()) fun _ => Equiv.refl Block) [1] [] .empty := by
  rintro ⟨ret, dst, h', hrun, -⟩
  obtain ⟨h'', hundef⟩ := @Evp.encrypt_outside (.ecb (fun _ => ()) fun _ => Equiv.refl Block) (.ok ())
    [1] [] (by decide) .empty rfl
  rw [show Des3Function.encryptStr.run _ [1] [] .empty = _ from hundef] at hrun
  cases hrun

/-! ## The same functions without a heap -/

theorem encrypted_ecb {κ : Type} (bytesToKey : List Byte → κ) (des3 : κ → Equiv.Perm Block)
    (src passwd : List Byte) : (Evp.ecb bytesToKey des3).encrypted src passwd =
      BlockCipher.encrypt (des3 (bytesToKey passwd)) src := by
  have hupdate := EcbCtx.encryptUpdate_init (des3 (bytesToKey passwd)) true src
  rw [BlockCipher.encrypt_eq]
  show (EcbCtx.encryptUpdate ⟨des3 (bytesToKey passwd), true, []⟩ src src.length).2.1 ++
    (EcbCtx.encryptFinal
      (EcbCtx.encryptUpdate ⟨des3 (bytesToKey passwd), true, []⟩ src src.length).2.2).2.1 = _
  rw [hupdate]
  rfl

/-- `Des3::Encrypt` gives the ciphertext that the transport is proved about. -/
theorem encryptStr_ecb (ssl : OpenSsl) {src : List Byte} (passwd dst : List Byte)
    (hlen : src.length < 2 ^ 29) (h : Heap Byte) :
    encryptStr ssl src passwd = .ok (.ok, dst) ↔
      ∃ h', (Evp.ecb ssl.bytesToKey ssl.des3).encryptStr src passwd h = (.ok (.ok, dst), h') := by
  have hshort : shortLength src = src.length := Nat.mod_eq_of_lt (by omega)
  have htext : cipherText ssl src passwd =
      (Evp.ecb ssl.bytesToKey ssl.des3).encrypted src passwd := by
    rw [encrypted_ecb, cipherText, hshort, List.take_length]
  rw [encryptStr_ok_iff, Encryptable, hshort, htext]
  rcases Nat.lt_or_ge src.length 4 with hsmall | hfour
  · obtain ⟨h', hundef⟩ := @Evp.encrypt_outside (.ecb ssl.bytesToKey ssl.des3) (.ok ()) src passwd
      hsmall h rfl
    constructor
    · intro hdst
      omega
    · rintro ⟨h'', hrun⟩
      rw [show Evp.encryptStr _ src passwd h = _ from hundef] at hrun
      cases hrun
  · obtain ⟨h', hrun⟩ := @Evp.encrypt_inside (.ecb ssl.bytesToKey ssl.des3) (.ok ()) src passwd
      hfour hlen h rfl
    constructor
    · rintro ⟨-, rfl⟩
      exact ⟨h', hrun⟩
    · rintro ⟨h'', hrun'⟩
      rw [show Evp.encryptStr _ src passwd h = _ from hrun] at hrun'
      cases hrun'
      exact ⟨⟨hfour, by omega⟩, rfl⟩

end Crypto
end Huicpp
