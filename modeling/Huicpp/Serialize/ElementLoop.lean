import Mathlib
import Huicpp.Cxx.Iterations
import Huicpp.Serialize.Overloads

/-!
# Serialize.ElementLoop

A vector of a class type is read element by element, while `nMid` runs up to the declared size in
steps of `5000000 / sizeof(T)`. `nMid` is a 32-bit number.

* `Calls`: the calls of the element decoder, each on a fresh element and on the stream that the
  previous call left.
* `DecodesAll`: the loop ends with the declared number of decoded elements, and the vector never
  gets shorter on the way.
* `decodesAll_iff`: it does unless the step is zero, or `nMid` wraps before it reaches the end.
-/

namespace Huicpp
namespace Serialize

open Cxx Prog

section Code

variable {σ : Type} [Stream σ]

/-- From `is`, calls of the decoder on fresh elements gave `xs` and left the stream at the last
index. -/
inductive Calls (e : SerTy) (is : σ) : List e.T → σ → Prop where
  | nil : Calls e is [] is
  | call {xs : List e.T} {is₁ is₂ : σ} {x : e.T} : Calls e is xs is₁ →
      Returns (e.unserialize is₁ e.dflt) (x, is₂) → Calls e is (xs ++ [x]) is₂

/-- The loop of `Unserialize_impl(is, v, false_type)` comes to an end, `v` has the declared size
and consists of the results of as many calls, and `v.size()` never goes down. -/
def DecodesAll (e : SerTy) (is : σ) : Prop :=
  ∃ nSize is₁ l x, readSize32 is = .ok (nSize, is₁) ∧
    Iterations (fun (_, nMid, _, _) => decide (nMid < nSize)) (readChunk e nSize)
      (0, 0, [], is₁) l x ∧
    x.2.2.1.length = nSize ∧ Calls e is₁ x.2.2.1 x.2.2.2 ∧
    (l ++ [x]).IsChain (fun y z => y.2.2.1.length ≤ z.2.2.1.length)

/-- The decoder returns each time that it is called for one of `nSize` elements. -/
def ElementsReturn (e : SerTy) (is : σ) (nSize : Nat) : Prop :=
  ∀ xs is', xs.length < nSize → Calls e is xs is' → ∃ r, Returns (e.unserialize is' e.dflt) r

/-- The elements of one pass. -/
def passSize (e : SerTy) : Nat := 5000000 / e.sizeof

/-- The passes of the declared size have a length, and end below 2^32. -/
def PassesFit (e : SerTy) (nSize : Nat) : Prop :=
  nSize = 0 ∨ 0 < passSize e ∧ roundUp nSize (passSize e) < 2 ^ 32

end Code

/-! ## Rounding up -/

theorem succ_mul_le_roundUp {n c k : Nat} (hc : 0 < c) (hk : k * c < n) : (k + 1) * c ≤ roundUp n c := by
  refine Nat.mul_le_mul_right c ?_
  rw [Nat.le_div_iff_mul_le hc, Nat.succ_mul]
  omega

theorem roundUp_last {n c : Nat} (hc : 0 < c) (hn : 0 < n) :
    ∃ k, roundUp n c = (k + 1) * c ∧ k * c < n := by
  have h1 : 1 ≤ (n + c - 1) / c := (Nat.le_div_iff_mul_le hc).mpr (by omega)
  have h2 : (n + c - 1) / c * c ≤ n + c - 1 := Nat.div_mul_le_self _ _
  refine ⟨(n + c - 1) / c - 1, ?_, ?_⟩
  · rw [roundUp, Nat.sub_add_cancel h1]
  · rw [Nat.sub_mul, Nat.one_mul]
    omega

section Loop

variable {σ : Type} [Stream σ] {e : SerTy} {is : σ} {nSize : Nat}

theorem passSize_le (e : SerTy) : passSize e ≤ 5000000 := Nat.div_le_self _ _

/-- The inner loop at index `j`: what is decoded, and fresh elements up to `nMid`. -/
def InPass (e : SerTy) (is : σ) (nMid j : Nat) : List e.T × σ → Prop
  | (v, is') => ∃ xs, xs.length = j ∧ v = xs ++ List.replicate (nMid - j) e.dflt ∧
      Calls e is xs is'

theorem readElem_decodes (hterm : ElementsReturn e is nSize) {nMid j : Nat} (hj : j < nMid)
    (hmid : nMid ≤ nSize) {s : List e.T × σ} (h : InPass e is nMid j s) :
    ∃ s', Returns (readElem e j s) s' ∧ InPass e is nMid (j + 1) s' := by
  obtain ⟨v, is'⟩ := s
  obtain ⟨xs, hxs, rfl, hd⟩ := h
  obtain ⟨⟨x, is''⟩, hx⟩ := hterm xs is' (by omega) hd
  have hrest : List.replicate (nMid - j) e.dflt =
      e.dflt :: List.replicate (nMid - (j + 1)) e.dflt := by
    rw [← List.replicate_succ]
    congr 1
    omega
  have hget : (xs ++ List.replicate (nMid - j) e.dflt)[j]? = some e.dflt := by
    rw [hrest, List.getElem?_append_right (Nat.le_of_eq hxs), hxs, Nat.sub_self]
    rfl
  have hset : (xs ++ List.replicate (nMid - j) e.dflt).set j x =
      xs ++ [x] ++ List.replicate (nMid - (j + 1)) e.dflt := by
    rw [hrest, List.set_append_right _ _ (Nat.le_of_eq hxs), hxs, Nat.sub_self,
      List.set_cons_zero, List.append_assoc]
    rfl
  refine ⟨(_, is''), ?_, xs ++ [x], ?_, hset, .call hd hx⟩
  · rw [readElem, hget]
    exact hx.bind (.pure _)
  · rw [List.length_append, hxs]
    rfl

theorem readChunk_decodes (hterm : ElementsReturn e is nSize) {i : Nat}
    {v : List e.T} {is' : σ} (hv : v.length = i) (hd : Calls e is v is')
    (hmid : i ≤ nextMid e nSize i) (hsize : nextMid e nSize i ≤ nSize) :
    ∃ v' is'', Returns (readChunk e nSize (i, i, v, is'))
        (nextMid e nSize i, nextMid e nSize i, v', is'') ∧
      v'.length = nextMid e nSize i ∧ Calls e is v' is'' := by
  obtain ⟨nMid, hm⟩ : ∃ m, m = nextMid e nSize i := ⟨_, rfl⟩
  rw [← hm] at hmid hsize ⊢
  have hstart : InPass e is nMid i (resizeTo v nMid e.dflt, is') := by
    refine ⟨v, hv, ?_, hd⟩
    rw [resizeTo, List.take_of_length_le (by omega), hv]
  have hend : i + (nMid - i) = nMid := by omega
  obtain ⟨⟨v', is''⟩, hr, xs, hxs, hv', hd'⟩ := Returns.forUp_inv (readElem e) (InPass e is nMid)
    (nMid - i) i _ (fun j s _ hj hs => readElem_decodes hterm (by omega) hsize hs) hstart
  rw [hend] at hxs hv'
  rw [Nat.sub_self, List.replicate_zero, List.append_nil] at hv'
  subst hv'
  refine ⟨v', is'', ?_, hxs, hd'⟩
  simp only [readChunk, ← hm]
  refine hr.bind ?_
  show Returns (pure (i + (nMid - i), nMid, v', is'')) _
  rw [hend]
  exact .pure _

/-- A pass that goes down cuts the vector and decodes nothing. -/
theorem readChunk_cuts {i : Nat} {v : List e.T} {is' : σ} (hmid : nextMid e nSize i ≤ i) :
    Returns (readChunk e nSize (i, i, v, is'))
      (i, nextMid e nSize i, resizeTo v (nextMid e nSize i) e.dflt, is') := by
  have hzero : nextMid e nSize i - i = 0 := Nat.sub_eq_zero_of_le hmid
  simp only [readChunk, hzero, Nat.add_zero]
  exact Returns.bind (.pure _) (.pure _)

theorem nextMid_up (nSize : Nat) {i : Nat} (hfit : i + passSize e < 2 ^ 32) :
    nextMid e nSize i = min nSize (i + passSize e) := by
  rw [passSize] at *
  rw [nextMid, Nat.mod_eq_of_lt hfit]
  split <;> omega

theorem nextMid_wrap {i : Nat} (hi : i < nSize) (hn : nSize < 2 ^ 32)
    (hwrap : 2 ^ 32 ≤ i + passSize e) : nextMid e nSize i < i := by
  have hc := passSize_le e
  rw [passSize] at *
  rw [nextMid]
  split <;> omega

/-- Between passes everything up to `nMid` is decoded; before the last one `nMid` is a multiple of
the step. -/
def BetweenPasses (e : SerTy) (is : σ) (nSize : Nat) : Nat × Nat × List e.T × σ → Prop
  | (i, nMid, v, is') => i = nMid ∧ v.length = nMid ∧ Calls e is v is' ∧ nMid ≤ nSize ∧
      (nMid < nSize → ∃ k, nMid = k * passSize e)

theorem readChunk_up (hterm : ElementsReturn e is nSize) (hc : 0 < passSize e) (hfit : roundUp nSize (passSize e) < 2 ^ 32)
    {s : Nat × Nat × List e.T × σ} (h : BetweenPasses e is nSize s) (hs : s.2.1 < nSize) :
    ∃ s', Returns (readChunk e nSize s) s' ∧ BetweenPasses e is nSize s' ∧ s.2.1 < s'.2.1 := by
  obtain ⟨i, nMid, v, is'⟩ := s
  obtain ⟨rfl, hv, hd, _, hk⟩ := h
  have hi : i < nSize := hs
  obtain ⟨k, hk⟩ := hk hi
  have hle := succ_mul_le_roundUp hc (hk ▸ hi)
  rw [Nat.succ_mul, ← hk] at hle
  have hle' : i + passSize e < 2 ^ 32 := Nat.lt_of_le_of_lt hle hfit
  have hmid := nextMid_up nSize hle'
  obtain ⟨v', is'', hr, hv', hd'⟩ := readChunk_decodes hterm hv hd (by omega) (by omega)
  rw [hmid] at hr hv'
  refine ⟨_, hr, ⟨rfl, hv', hd', Nat.min_le_left _ _, fun hmore => ⟨k + 1, ?_⟩⟩, ?_⟩
  · rw [Nat.succ_mul, ← hk]
    omega
  · show i < min nSize (i + passSize e)
    omega

theorem passesFit_of_run (hterm : ElementsReturn e is nSize) (hn : nSize < 2 ^ 32) (hc : 0 < passSize e) {s x : Nat × Nat × List e.T × σ}
    {l : List (Nat × Nat × List e.T × σ)}
    (h : Iterations (fun (_, nMid, _, _) => decide (nMid < nSize)) (readChunk e nSize) s l x) :
    BetweenPasses e is nSize s →
    (l ++ [x]).IsChain (fun y z => y.2.2.1.length ≤ z.2.2.1.length) →
    ∀ j, s.2.1 ≤ j * passSize e → j * passSize e < nSize → (j + 1) * passSize e < 2 ^ 32 := by
  induction h with
  | @done s hstop =>
    intro _ _ j hj hjn
    obtain ⟨i, nMid, v, is'⟩ := s
    have hend : ¬ nMid < nSize := of_decide_eq_false hstop
    have hj' : nMid ≤ j * passSize e := hj
    omega
  | @step s s' _ l hgo hb hrun ih =>
    intro hinv hchain j hj hjn
    obtain ⟨i, nMid, v, is'⟩ := s
    obtain ⟨rfl, hv, hd, hle, hk⟩ := hinv
    have hi : i < nSize := of_decide_eq_true hgo
    obtain ⟨k, hk⟩ := hk hi
    obtain ⟨r, hr⟩ := hrun.states_eq
    rw [List.cons_append, hr] at hchain
    have hfit : i + passSize e < 2 ^ 32 := by
      by_contra hwrap
      have hmid := nextMid_wrap hi hn (Nat.le_of_not_lt hwrap)
      obtain rfl := hb.unique (readChunk_cuts (Nat.le_of_lt hmid))
      have hlen := (List.isChain_cons_cons.mp hchain).1
      simp only [resizeTo_length, hv] at hlen
      omega
    have hmid := nextMid_up nSize hfit
    obtain ⟨v', is'', hret, hv', hd'⟩ := readChunk_decodes hterm hv hd (by omega) (by omega)
    obtain rfl := hb.unique hret
    rw [hmid] at ih hv'
    by_cases hjk : j = k
    · rw [hjk, Nat.succ_mul, ← hk]
      exact hfit
    · have hkj : k < j := by
        by_contra hge
        have := Nat.mul_le_mul_right (passSize e) (show j + 1 ≤ k by omega)
        rw [Nat.succ_mul] at this
        have hj' : i ≤ j * passSize e := hj
        omega
      have hmul := Nat.mul_le_mul_right (passSize e) (show k + 1 ≤ j by omega)
      rw [Nat.succ_mul, ← hk] at hmul
      rw [hr] at ih
      refine ih ⟨rfl, hv', hd', Nat.min_le_left _ _, fun _ => ⟨k + 1, ?_⟩⟩
        (List.isChain_cons_cons.mp hchain).2 j ?_ hjn
      · rw [Nat.succ_mul, ← hk]
        omega
      · exact Nat.le_trans (Nat.min_le_right _ _) hmul

/-- With an empty pass the loop repeats its first iteration for ever. -/
theorem passSize_pos_of_run {is₁ : σ} {x : Nat × Nat × List e.T × σ}
    {l : List (Nat × Nat × List e.T × σ)} (hn : 0 < nSize)
    (h : Iterations (fun (_, nMid, _, _) => decide (nMid < nSize)) (readChunk e nSize)
      (0, 0, [], is₁) l x) : 0 < passSize e := by
  by_contra hzero
  have hmid : nextMid e nSize 0 = 0 := by
    rw [passSize] at hzero
    rw [nextMid, Nat.eq_zero_of_not_pos hzero]
    split <;> omega
  have hhang : Hangs (whileDo (fun (_, nMid, _, _) => decide (nMid < nSize)) (readChunk e nSize)
      (0, 0, [], is₁)) := by
    refine Hangs.while_stuck (decide_eq_true hn) fun m => ?_
    show (forUp (readElem e) 0 (nextMid e nSize 0 - 0) _ m >>= _) = _
    rw [hmid]
    rfl
  exact hhang.not_returns _ h.returns

theorem betweenPasses_start (e : SerTy) (is : σ) (nSize : Nat) :
    BetweenPasses e is nSize (0, 0, [], is) :=
  ⟨rfl, rfl, .nil, Nat.zero_le _, fun _ => ⟨0, (Nat.zero_mul _).symm⟩⟩

theorem passesFit_of_decodesAll {is₁ : σ} (hterm : ElementsReturn e is₁ nSize)
    (hsize : readSize32 is = .ok (nSize, is₁)) (h : DecodesAll e is) : PassesFit e nSize := by
  obtain ⟨n, is', l, x, hsize', hrun, _, _, hchain⟩ := h
  obtain ⟨rfl, rfl⟩ : n = nSize ∧ is' = is₁ := by
    rw [hsize] at hsize'
    cases hsize'
    exact ⟨rfl, rfl⟩
  by_cases hpos : 0 < n
  · have hc := passSize_pos_of_run hpos hrun
    obtain ⟨k, hk, hlast⟩ := roundUp_last hc hpos
    have hfit := passesFit_of_run hterm (readSize32_lt hsize) hc hrun
      (betweenPasses_start e is' n) hchain k (Nat.zero_le _) hlast
    exact .inr ⟨hc, hk ▸ hfit⟩
  · exact .inl (Nat.eq_zero_of_not_pos hpos)

/-- Where the passes fit, every one of them goes up, to the end. -/
theorem decodesAll_of_passesFit {is₁ : σ} (hterm : ElementsReturn e is₁ nSize)
    (hsize : readSize32 is = .ok (nSize, is₁)) (h : PassesFit e nSize) : DecodesAll e is := by
  rcases h with rfl | ⟨hc, hfit⟩
  · exact ⟨0, is₁, [], _, hsize, .done rfl, rfl, .nil, .singleton _⟩
  · have hstart := betweenPasses_start e is₁ nSize
    obtain ⟨l, x, hrun, _, hx, _⟩ := Iterations.of_inv
      (fun (_, nMid, _, _) => decide (nMid < nSize)) (readChunk e nSize)
      (BetweenPasses e is₁ nSize) (fun s => nSize - s.2.1)
      (by
        rintro ⟨i, nMid, v, is'⟩ hs hgo
        have hi : nMid < nSize := of_decide_eq_true hgo
        obtain ⟨s', hr, hs', hlt⟩ := readChunk_up hterm hc hfit hs hi
        simp only at hlt
        exact ⟨s', hr, hs', by simp only; omega⟩)
      (0, 0, [], is₁) hstart
    have hchain := hrun.chain (BetweenPasses e is₁ nSize)
      (fun y z => y.2.2.1.length ≤ z.2.2.1.length)
      (by
        rintro ⟨i, nMid, v, is'⟩ y hs hgo hb
        have hi : nMid < nSize := of_decide_eq_true hgo
        obtain ⟨s', hr, hs', hlt⟩ := readChunk_up hterm hc hfit hs hi
        obtain rfl := hb.unique hr
        exact ⟨hs', by rw [hs.2.1, hs'.2.1]; exact Nat.le_of_lt hlt⟩)
      hstart
    have hend := hrun.test_false
    obtain ⟨i, nMid, v, is'⟩ := x
    obtain ⟨rfl, hv, hd, hle, _⟩ := hx
    have hstop : ¬ i < nSize := of_decide_eq_false hend
    have hlen : v.length = nSize := by omega
    exact ⟨nSize, is₁, l, _, hsize, hrun, hlen, hd, hchain⟩

/-! ## Decoders that return -/

theorem Calls.first {xs : List e.T} {is' : σ} (h : Calls e is xs is') :
    (xs = [] ∧ is' = is) ∨ ∃ x rest is₁, xs = x :: rest ∧ Returns (e.unserialize is e.dflt) (x, is₁) ∧
      Calls e is₁ rest is' := by
  induction h with
  | nil => exact .inl ⟨rfl, rfl⟩
  | @call xs is₁ is₂ x _ hret ih =>
    rcases ih with ⟨rfl, rfl⟩ | ⟨y, rest, is', rfl, hfirst, hrest⟩
    · exact .inr ⟨x, [], is₂, rfl, hret, .nil⟩
    · exact .inr ⟨y, rest ++ [x], is', rfl, hfirst, .call hrest hret⟩

theorem elementsReturn_zero (e : SerTy) (is : σ) : ElementsReturn e is 0 :=
  fun _ _ hlen _ => absurd hlen (Nat.not_lt_zero _)

theorem ElementsReturn.cons {x : e.T} {is₁ : σ} (hret : Returns (e.unserialize is e.dflt) (x, is₁))
    (h : ElementsReturn e is₁ nSize) : ElementsReturn e is (nSize + 1) := by
  intro xs is' hlen hcalls
  rcases hcalls.first with ⟨rfl, rfl⟩ | ⟨y, rest, is₂, rfl, hfirst, hrest⟩
  · exact ⟨_, hret⟩
  · obtain ⟨rfl, rfl⟩ := Prod.mk.inj (hfirst.unique hret)
    exact h rest is' (Nat.lt_of_succ_lt_succ hlen) hrest

end Loop

/-- **Element-wise decoding.** If the decoder returns for every element, the loop decodes the declared
number of elements, without ever shortening the vector, exactly when its passes fit. -/
theorem decodesAll_iff {σ : Type} [Stream σ] (e : SerTy) (is is₁ : σ) (nSize : Nat)
    (hterm : ElementsReturn e is₁ nSize) (hsize : readSize32 is = .ok (nSize, is₁)) :
    DecodesAll e is ↔ PassesFit e nSize :=
  ⟨passesFit_of_decodesAll hterm hsize, decodesAll_of_passesFit hterm hsize⟩

/-- Two pairs of flags, from a stream that ends behind them. -/
theorem decodesAll_pairs :
    DecodesAll (SerTy.pair .bool .bool) (⟨[2, 1, 1, 0, 1], 0⟩ : CDataStream) := by
  have hflags : ∀ (is is₁ is₂ : CDataStream) (b₁ b₂ : Byte), is.read 1 = .ok ([b₁], is₁) →
      is₁.read 1 = .ok ([b₂], is₂) →
      Returns ((SerTy.pair .bool .bool).unserialize is (false, false))
        ((leNat [b₁] != 0, leNat [b₂] != 0), is₂) := fun _ _ _ _ _ h₁ h₂ =>
    .bind (.bind (.lift h₁) (.pure _)) (.bind (.bind (.lift h₂) (.pure _)) (.pure _))
  have hterm : ElementsReturn (SerTy.pair .bool .bool) (⟨[2, 1, 1, 0, 1], 1⟩ : CDataStream) 2 :=
    .cons (hflags _ ⟨_, 2⟩ ⟨_, 3⟩ 1 1 rfl rfl)
      (.cons (hflags _ ⟨_, 4⟩ ⟨_, _⟩ 0 1 rfl rfl) (elementsReturn_zero _ _))
  exact (decodesAll_iff _ _ _ 2 hterm (by decide)).mpr (.inr ⟨by decide, by decide⟩)

theorem readSize32_list (is : List Byte) : ∃ r, readSize32 is = .ok r := by
  simp only [readSize32, readCompactSize, Stream.read, Outcome.ok_bind, Outcome.pure_eq]
  split
  · exact ⟨_, rfl⟩
  · split
    · exact ⟨_, rfl⟩
    · split
      · exact ⟨_, rfl⟩
      · exact ⟨_, rfl⟩

theorem string_terminates (is prev : List Byte) :
    ∃ r, Returns (SerTy.string.unserialize is prev) r := by
  obtain ⟨⟨nSize, is₁⟩, hsize⟩ := readSize32_list is
  by_cases h0 : nSize = 0
  · refine ⟨_, .lift (a := (resizeTo prev nSize 0, is₁)) ?_⟩
    rw [unserializeString, hsize, Outcome.ok_bind]
    exact if_neg (not_not_intro h0)
  · refine ⟨_, .lift (a := (padTake nSize is₁ ++ (resizeTo prev nSize 0).drop nSize,
      is₁.drop nSize)) ?_⟩
    rw [unserializeString, hsize, Outcome.ok_bind]
    exact if_pos h0

/-- 2^32 - 1 declared strings: a pass has 156250 of them, and the last pass would end at
4295000000. -/
theorem decodesAll_wrap :
    ¬ DecodesAll SerTy.string ([0xFE, 0xFF, 0xFF, 0xFF, 0xFF] : List Byte) := by
  intro h
  have hsize : readSize32 ([0xFE, 0xFF, 0xFF, 0xFF, 0xFF] : List Byte) = .ok (2 ^ 32 - 1, []) := by
    decide
  rcases passesFit_of_decodesAll (fun _ is _ _ => string_terminates is []) hsize h with h0 | ⟨_, hfit⟩
  · exact absurd h0 (by omega)
  · exact absurd hfit (by decide)

end Serialize
end Huicpp
