import Mathlib
import Huicpp.Cxx.Text
import Huicpp.Cxx.Decimal

/-!
# Cxx.CString

A pointer that goes through a text, as the bytes from there to the end of their block; behind the end
there is nothing to read. `terminated s` is a pointer to the first character of `s`.

`sprintf` writes a text with its zero to the beginning of a buffer.
-/

namespace Cxx

abbrev CPtr := List Byte

/-- `*p` -/
def deref : CPtr → Outcome Byte
  | [] => .undef .outOfBounds
  | c :: _ => .ok c

/-- `s.c_str()`, or a literal -/
def terminated (s : List Byte) : CPtr := s ++ [0]

/-- `sprintf(buf, ...)` of a text, and the text that is in the buffer then -/
def sprintf (size : Nat) (text : List Byte) : Outcome (List Byte) := do
  let buf ← storeAt (List.replicate size 0) 0 (text ++ [0])
  return Text.cStr buf

@[simp] theorem deref_cons (c : Byte) (p : CPtr) : deref (c :: p) = .ok c := rfl

theorem terminated_cons (c : Byte) (s : List Byte) : terminated (c :: s) = c :: terminated s := rfl

theorem sprintf_eq {size : Nat} {text : List Byte} (h : 0 ∉ text) :
    sprintf size text = if text.length < size then .ok text else .undef .outOfBounds := by
  have hbuf : (List.replicate size (0 : Byte)).length = size := List.length_replicate ..
  have hlen : (text ++ [(0 : Byte)]).length = text.length + 1 := by
    rw [List.length_append, List.length_singleton]
  rw [sprintf, storeAt, hbuf, hlen]
  by_cases hfits : text.length < size
  · rw [if_pos hfits, if_pos (by omega), Outcome.ok_bind, List.take_zero, List.nil_append,
      List.append_assoc, List.singleton_append, Text.cStr_append_zero h]
    rfl
  · rw [if_neg hfits, if_neg (by omega), Outcome.undef_bind]

/-! ## Numbers -/

/-- `%02d`: zeros stand between the sign and the digits. -/
def decimalInt02 (n : Int) : List Byte :=
  let digits := decimal n.natAbs
  if n < 0 then charByte '-' :: (List.replicate (1 - digits.length) (charByte '0') ++ digits)
  else List.replicate (2 - digits.length) (charByte '0') ++ digits

theorem mem_decimalInt {n : Int} {b : Byte} (hb : b ∈ decimalInt n) :
    isDigit b = true ∨ b = charByte '-' := by
  rw [decimalInt] at hb
  split at hb
  · rcases List.mem_cons.mp hb with hb | hb
    · exact .inr hb
    · exact .inl (isDigit_decimal b hb)
  · exact .inl (isDigit_decimal b hb)

theorem mem_decimalInt02 {n : Int} {b : Byte} (hb : b ∈ decimalInt02 n) :
    isDigit b = true ∨ b = charByte '-' := by
  have hpad : ∀ k, b ∈ List.replicate k (charByte '0') ++ decimal n.natAbs → isDigit b = true := by
    intro k hb
    rcases List.mem_append.mp hb with hb | hb
    · rw [List.eq_of_mem_replicate hb]
      decide
    · exact isDigit_decimal b hb
  rw [decimalInt02] at hb
  split at hb
  · rcases List.mem_cons.mp hb with hb | hb
    · exact .inr hb
    · exact .inl (hpad _ hb)
  · exact .inl (hpad _ hb)

theorem zero_not_mem_decimalInt (n : Int) : 0 ∉ decimalInt n := fun h =>
  absurd (mem_decimalInt h) (by decide)

theorem zero_not_mem_decimalInt02 (n : Int) : 0 ∉ decimalInt02 n := fun h =>
  absurd (mem_decimalInt02 h) (by decide)

theorem decimalInt_ne_nil (n : Int) : decimalInt n ≠ [] := by
  rw [decimalInt]
  split
  · exact List.cons_ne_nil _ _
  · exact decimal_ne_nil _

theorem decimalInt02_ne_nil (n : Int) : decimalInt02 n ≠ [] := by
  rw [decimalInt02]
  split
  · exact List.cons_ne_nil _ _
  · exact List.append_ne_nil_of_right_ne_nil _ (decimal_ne_nil _)

theorem decimal_length_le_iff {n k : Nat} (hk : 0 < k) : (decimal n).length ≤ k ↔ n < 10 ^ k := by
  constructor
  · intro h
    rw [decimal] at h
    split at h
    · rename_i hn
      rw [hn]
      exact Nat.pow_pos (by decide)
    · rw [List.length_reverse, List.length_map] at h
      exact (Nat.digits_length_le_iff (by decide) n).mp h
  · exact decimal_length_le hk

theorem decimalInt_length_le_iff {n : Int} {k : Nat} :
    (decimalInt n).length ≤ k + 2 ↔ -(10 ^ (k + 1) : Nat) < n ∧ n < (10 ^ (k + 2) : Nat) := by
  have hpow : 10 ^ (k + 2) = 10 ^ (k + 1) * 10 := Nat.pow_succ ..
  rw [decimalInt]
  split
  · rw [List.length_cons, Nat.add_le_add_iff_right (n := 1),
      decimal_length_le_iff (Nat.succ_pos k)]
    omega
  · rw [decimal_length_le_iff (Nat.succ_pos (k + 1))]
    omega

theorem decimalInt02_length_le {n : Int} (hlo : -100 < n) (hhi : n < 100) :
    (decimalInt02 n).length ≤ 3 := by
  have hdigits : (decimal n.natAbs).length ≤ 2 := (decimal_length_le_iff (by decide)).mpr (by omega)
  rw [decimalInt02]
  split
  · rw [List.length_cons, List.length_append, List.length_replicate]
    omega
  · rw [List.length_append, List.length_replicate]
    omega

end Cxx
