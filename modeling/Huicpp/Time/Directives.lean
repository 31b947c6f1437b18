import Mathlib
import Huicpp.Time.FromStr

/-!
# Time.Directives

A format as the list of its parts, and what the parts do with the data. `verdict` goes through the
parts; `parse_describes` says that the loop of `FromStr` does what `verdict` says.
-/

namespace Huicpp
namespace Time

open Cxx Prog

/-- A part of a format. A blank in front of another blank is a `char`. The digits of a width may stand
in a `%%`, too. -/
inductive Directive where
  | char (c : Byte)
  | pair (c e : Byte)
  | lastBlank (c : Byte)
  | percent (width : List Byte)
  | field (width : List Byte) (flag : Byte)
  deriving DecidableEq, Repr

/-- The text begins with a blank. -/
def startsBlank : List Byte → Bool
  | [] => false
  | c :: _ => isTabOrSpace c

/-- The parts of a format, and whether the last one is complete. -/
def directives : List Byte → List Directive × Bool
  | [] => ([], true)
  | c :: f =>
    if c = formatMark then
      match h : f.dropWhile isDigit with
      | [] => ([], false)
      | flag :: g =>
        have : g.length ≤ f.length := by
          have hle := List.dropWhile_suffix (l := f) isDigit |>.length_le
          rw [h, List.length_cons] at hle
          omega
        let x : Directive :=
          if flag = formatMark then .percent (f.takeWhile isDigit)
          else .field (f.takeWhile isDigit) flag
        (x :: (directives g).1, (directives g).2)
    else if isTabOrSpace c && !startsBlank f then
      (.lastBlank c :: (directives f).1, (directives f).2)
    else if 0x80 < c.toNat then
      match f with
      | [] => ([], false)
      | e :: g => (.pair c e :: (directives g).1, (directives g).2)
    else (.char c :: (directives f).1, (directives f).2)
termination_by f => f.length
decreasing_by all_goals simp only [List.length_cons]; omega

/-! ## The data -/

/-- What is left of the data, or nothing behind its end. -/
abbrev Rest := Option (List Byte)

def Rest.ptr : Rest → CPtr
  | none => []
  | some d => terminated d

def Rest.next : Rest → Rest
  | some (_ :: d) => some d
  | _ => none

@[simp] theorem Rest.ptr_next (r : Rest) : r.next.ptr = r.ptr.tail := by
  rcases r with - | (- | ⟨c, d⟩)
  · rfl
  · rfl
  · rfl

/-- The width of a conversion is an `int`. -/
def WidthFits (w : List Byte) : Prop := w = [] ∨ number w < 2 ^ 31

/-- The digits that a field takes. -/
def fieldDigits (w d : List Byte) : List Byte :=
  if w = [] then d.takeWhile isDigit else (d.take (number w)).takeWhile isDigit

/-- The flags of the fields. -/
def fieldFlags : List Byte :=
  [charByte 'y', charByte 'Y', charByte 'm', charByte 'd', charByte 'H', charByte 'M', charByte 'S']

/-- The number of a field is an `int`, and so is what is stored. -/
def NumberFits (flag : Byte) (vs : List Byte) : Prop :=
  number vs < 2 ^ 31 ∧ (flag = charByte 'y' → number vs + 100 < 2 ^ 31)

/-- A field is stored. -/
def Tm.put (flag : Byte) (val : Int) (atm : Tm) : Tm :=
  if flag = charByte 'y' then { atm with tm_year := val + 100 }
  else if flag = charByte 'Y' then { atm with tm_year := val - 1900 }
  else if flag = charByte 'm' then { atm with tm_mon := val - 1 }
  else if flag = charByte 'd' then { atm with tm_mday := val }
  else if flag = charByte 'H' then { atm with tm_hour := val }
  else if flag = charByte 'M' then { atm with tm_min := val }
  else if flag = charByte 'S' then { atm with tm_sec := val }
  else atm

instance (w : List Byte) : Decidable (WidthFits w) := inferInstanceAs (Decidable (_ ∨ _))

instance (flag : Byte) (vs : List Byte) : Decidable (NumberFits flag vs) :=
  inferInstanceAs (Decidable (_ ∧ (_ → _)))

/-- What a part does: it goes on behind something of the data, the data does not have it, or it is
undefined. -/
inductive Turn where
  | on (r : Rest)
  | absent
  | undefined

/-- Characters go on whatever the data has there. -/
def Directive.turn (x : Directive) (r : Rest) : Turn :=
  match x with
  | .char _ => .on r.next
  | .pair _ _ => .on r.next.next
  | .lastBlank _ =>
    match r.next with
    | none => .undefined
    | some d => .on (some (d.dropWhile isTabOrSpace))
  | .percent w =>
    match r with
    | none => .undefined
    | some d =>
      if ¬ WidthFits w then .undefined
      else if d.head? = some formatMark then .on (some d.tail)
      else .absent
  | .field w flag =>
    match r with
    | none => .undefined
    | some d =>
      if ¬ WidthFits w then .undefined
      else
        let vs := fieldDigits w d
        if vs = [] then .absent
        else if ¬ NumberFits flag vs then .undefined
        else if flag ∈ fieldFlags then .on (some (d.drop vs.length))
        else .absent

/-- What a part stores. -/
def Directive.store (x : Directive) (r : Rest) (atm : Tm) : Tm :=
  match x, r with
  | .field w flag, some d => atm.put flag (number (fieldDigits w d))
  | _, _ => atm

inductive Verdict where
  | accepted (atm : Tm)
  | refused
  | undefined

/-- The parts in their order. -/
def verdict (complete : Bool) : List Directive → Rest → Tm → Verdict
  | [], _, atm => if complete then .accepted atm else .undefined
  | x :: xs, r, atm =>
    match x.turn r with
    | .on r' => verdict complete xs r' (x.store r atm)
    | .absent => .refused
    | .undefined => .undefined

/-- What a verdict says about the loop. -/
def Verdict.Describes : Verdict → Prog (Option Tm) → Prop
  | .accepted atm, p => Returns p (some atm)
  | .refused, p => Returns p none
  | .undefined, p => ∃ u, Faults p u

/-! ## The pointers -/

variable {f d g w vs : List Byte} {c e flag : Byte} {atm : Tm} {F D : CPtr} {r : Rest}

theorem isDigit_zero : isDigit 0 = false := rfl

theorem terminated_append (a b : List Byte) : terminated (a ++ b) = a ++ terminated b :=
  List.append_assoc ..

theorem skipBlanks_terminated (d : List Byte) :
    skipBlanks (terminated d) = .ok (terminated (d.dropWhile isTabOrSpace)) := by
  induction d with
  | nil => rfl
  | cons c d ih =>
    rw [terminated_cons, skipBlanks]
    by_cases hc : isTabOrSpace c = true
    · have hzero : c ≠ 0 := by
        rintro rfl
        cases hc
      rw [if_pos (by simpa [hc] using hzero), ih, List.dropWhile_cons_of_pos hc]
    · rw [if_neg (by simp [hc]), List.dropWhile_cons_of_neg hc, terminated_cons]

theorem readWidth_append (hw : ∀ b ∈ w, isDigit b = true) (hc : isDigit c = false) :
    readWidth (w ++ c :: F) = .ok (w, c :: F) := by
  induction w with
  | nil => rw [List.nil_append, readWidth, if_neg (Bool.eq_false_iff.mp hc)]
  | cons b w ih =>
    rw [List.cons_append, readWidth, if_pos (hw b List.mem_cons_self),
      ih fun x hx => hw x (List.mem_cons_of_mem b hx), Outcome.ok_bind]
    rfl

theorem readNumber_all (n : Nat) (d : List Byte) :
    readNumber (-1) n (terminated d) =
      .ok (d.takeWhile isDigit, terminated (d.drop (d.takeWhile isDigit).length)) := by
  induction d generalizing n with
  | nil => rfl
  | cons c d ih =>
    rw [terminated_cons, readNumber]
    by_cases hc : isDigit c = true
    · have hzero : c ≠ 0 := by
        rintro rfl
        cases hc
      rw [if_pos (by simpa [hc] using hzero), ih, Outcome.ok_bind, List.takeWhile_cons_of_pos hc]
      rfl
    · rw [if_neg (by simp [hc]), List.takeWhile_cons_of_neg hc]
      rfl

theorem readNumber_upTo (k n : Nat) (d : List Byte) :
    readNumber ((n + k : Nat) : Int) n (terminated d) =
      .ok ((d.take k).takeWhile isDigit,
        terminated (d.drop ((d.take k).takeWhile isDigit).length)) := by
  induction d generalizing k n with
  | nil => rw [List.take_nil]; rfl
  | cons c d ih =>
    rw [terminated_cons, readNumber]
    cases k with
    | zero =>
      rw [if_neg (by simp)]
      rfl
    | succ k =>
      by_cases hc : isDigit c = true
      · have hzero : c ≠ 0 := by
          rintro rfl
          cases hc
        rw [if_pos (by simpa [hc] using hzero), show n + (k + 1) = n + 1 + k by omega, ih,
          Outcome.ok_bind, List.take_succ_cons, List.takeWhile_cons_of_pos hc]
        rfl
      · rw [if_neg (by simp [hc]), List.take_succ_cons, List.takeWhile_cons_of_neg hc]
        rfl

/-! ## A conversion -/

theorem atoi_ok (h : number vs < 2 ^ 31) : atoi vs = .ok (number vs : Int) := if_pos h

theorem atoi_setField (flag : Byte) (vs : List Byte) (atm : Tm) :
    (atoi vs >>= fun val => setField flag val atm) =
      if NumberFits flag vs then
        .ok (if flag ∈ fieldFlags then some (atm.put flag (number vs)) else none)
      else .undef .overflow := by
  by_cases hint : number vs < 2 ^ 31
  · rw [atoi_ok hint, Outcome.ok_bind, setField, Tm.put]
    by_cases hy : flag = charByte 'y'
    · rw [if_pos hy, if_pos hy]
      by_cases hfit : number vs + 100 < 2 ^ 31
      · rw [if_pos ⟨hint, fun _ => hfit⟩, checkedHN_ok (by omega) (by omega), hy]
        rfl
      · rw [if_neg fun h => hfit (h.2 hy), checkedHN, if_neg (by omega)]
        rfl
    · have hfit : NumberFits flag vs := ⟨hint, fun h => absurd h hy⟩
      have hyear : checkedHN ((number vs : Int) - 1900) = .ok (number vs - 1900) :=
        checkedHN_ok (by omega) (by omega)
      have hmon : checkedHN ((number vs : Int) - 1) = .ok (number vs - 1) :=
        checkedHN_ok (by omega) (by omega)
      rw [if_pos hfit, hyear, hmon]
      by_cases hY : flag = charByte 'Y'
      · rw [hY]
        rfl
      by_cases hm : flag = charByte 'm'
      · rw [hm]
        rfl
      by_cases hd : flag = charByte 'd'
      · rw [hd]
        rfl
      by_cases hH : flag = charByte 'H'
      · rw [hH]
        rfl
      by_cases hM : flag = charByte 'M'
      · rw [hM]
        rfl
      by_cases hS : flag = charByte 'S'
      · rw [hS]
        rfl
      have hnone : flag ∉ fieldFlags := by simp [fieldFlags, hy, hY, hm, hd, hH, hM, hS]
      rw [if_neg hy, if_neg hY, if_neg hm, if_neg hd, if_neg hH, if_neg hM, if_neg hS, if_neg hnone]
  · rw [atoi, if_neg hint, Outcome.undef_bind, if_neg fun h => hint h.1]

/-- What the code does for a part, with `F` behind it. -/
def Turn.Describes (F : CPtr) (atm : Tm) : Turn → Outcome ParseState → Prop
  | .on r, o => o = .ok ⟨F, r.ptr, true, atm⟩
  | .absent, o => ∃ D atm, o = .ok ⟨F, D, false, atm⟩
  | .undefined, o => ∃ u, o = .undef u

theorem readWidth_fits (hw : ∀ b ∈ w, isDigit b = true) (hflag : isDigit flag = false)
    (hfit : WidthFits w) :
    conversion (w ++ flag :: F) D atm = (do
      let width : Int := if w = [] then -1 else number w
      if flag = formatMark then do
        let c ← deref D
        return ⟨F, D.tail, c = formatMark, atm⟩
      else do
        let (strTemp, q) ← readNumber width 0 D
        if strTemp = [] then return ⟨F, q, false, atm⟩
        else do
          let val ← atoi strTemp
          let atm' ← setField flag val atm
          return ⟨F, q, atm'.isSome, atm'.getD atm⟩) := by
  rw [conversion, readWidth_append hw hflag, Outcome.ok_bind]
  dsimp only
  by_cases hnil : w = []
  · rw [if_pos hnil, if_pos hnil]
    rfl
  · rw [if_neg hnil, if_neg hnil, atoi_ok (hfit.resolve_left hnil)]
    rfl

theorem conversion_overflow (hw : ∀ b ∈ w, isDigit b = true) (hflag : isDigit flag = false)
    (hfit : ¬ WidthFits w) : conversion (w ++ flag :: F) D atm = .undef .overflow := by
  obtain ⟨hnil, hlarge⟩ := not_or.mp hfit
  rw [conversion, readWidth_append hw hflag, Outcome.ok_bind]
  dsimp only
  rw [if_neg hnil, atoi, if_neg hlarge, Outcome.undef_bind]

theorem conversion_percent (hw : ∀ b ∈ w, isDigit b = true) (r : Rest) (atm : Tm) :
    ((Directive.percent w).turn r).Describes F atm (conversion (w ++ formatMark :: F) r.ptr atm) := by
  rw [Directive.turn.eq_def]
  by_cases hfit : WidthFits w
  · rw [readWidth_fits hw rfl hfit]
    dsimp only
    rw [if_pos rfl]
    rcases r with - | (- | ⟨c, d⟩)
    · exact ⟨_, rfl⟩
    · dsimp only
      rw [if_neg (not_not.mpr hfit), if_neg (by decide)]
      exact ⟨_, _, rfl⟩
    · dsimp only
      rw [if_neg (not_not.mpr hfit)]
      rw [List.head?_cons, List.tail_cons]
      by_cases hc : c = formatMark
      · rw [if_pos (congrArg some hc), hc]
        rfl
      · rw [if_neg fun h => hc (Option.some.inj h)]
        refine ⟨terminated d, atm, ?_⟩
        show Outcome.ok (ParseState.mk F (terminated d) (decide (c = formatMark)) atm) = _
        rw [decide_eq_false hc]
  · rw [conversion_overflow hw rfl hfit]
    cases r with
    | none => exact ⟨_, rfl⟩
    | some d =>
      dsimp only
      rw [if_pos hfit]
      exact ⟨_, rfl⟩

theorem readNumber_field (w d : List Byte) :
    readNumber (if w = [] then -1 else (number w : Int)) 0 (terminated d) =
      .ok (fieldDigits w d, terminated (d.drop (fieldDigits w d).length)) := by
  by_cases hnil : w = []
  · rw [if_pos hnil, fieldDigits, if_pos hnil, readNumber_all]
  · have hread := readNumber_upTo (number w) 0 d
    rw [Nat.zero_add] at hread
    rw [if_neg hnil, fieldDigits, if_neg hnil, hread]

theorem conversion_field (hw : ∀ b ∈ w, isDigit b = true) (hflag : isDigit flag = false)
    (hne : flag ≠ formatMark) (r : Rest) (atm : Tm) :
    ((Directive.field w flag).turn r).Describes F ((Directive.field w flag).store r atm)
      (conversion (w ++ flag :: F) r.ptr atm) := by
  rw [Directive.turn.eq_def]
  by_cases hfit : WidthFits w
  · rw [readWidth_fits hw hflag hfit]
    dsimp only
    rw [if_neg hne]
    cases r with
    | none => exact ⟨_, rfl⟩
    | some d =>
      dsimp only [Rest.ptr]
      rw [if_neg (not_not.mpr hfit), readNumber_field, Outcome.ok_bind]
      dsimp only
      by_cases hvs : fieldDigits w d = []
      · rw [if_pos hvs, if_pos hvs]
        exact ⟨_, _, rfl⟩
      · rw [if_neg hvs, if_neg hvs, ← Outcome.bind_assoc, atoi_setField]
        by_cases hnum : NumberFits flag (fieldDigits w d)
        · rw [if_neg (not_not.mpr hnum), if_pos hnum, Outcome.ok_bind]
          by_cases hmem : flag ∈ fieldFlags
          · rw [if_pos hmem, if_pos hmem]
            rfl
          · rw [if_neg hmem, if_neg hmem]
            exact ⟨_, _, rfl⟩
        · rw [if_pos hnum, if_neg hnum]
          exact ⟨_, rfl⟩
  · rw [conversion_overflow hw hflag hfit]
    cases r with
    | none => exact ⟨_, rfl⟩
    | some d =>
      dsimp only
      rw [if_pos hfit]
      exact ⟨_, rfl⟩

/-! ## The loop -/

/-- What is behind the characters: the end of the format, or a conversion. -/
def afterLiterals (atm : Tm) (pq : CPtr × CPtr) : Outcome (Ctl ParseState (Option Tm)) := do
  let c ← deref pq.1
  if c = 0 then return .exit (some atm)
  else do
    let s' ← conversion pq.1.tail pq.2 atm
    return .again s'

/-- The test of the loop finds nothing that the end of the inner loop would not find. -/
theorem parseStep_valid (F D : CPtr) (atm : Tm) :
    parseStep ⟨F, D, true, atm⟩ = literals F D >>= afterLiterals atm := by
  rw [parseStep]
  dsimp only
  cases F with
  | nil => rfl
  | cons c p =>
    rw [deref_cons, Outcome.ok_bind]
    by_cases hc : c = 0
    · subst hc
      rw [if_neg fun h => h.1 rfl]
      cases p with
      | nil => rfl
      | cons c p => rfl
    · rw [if_pos ⟨hc, rfl⟩]
      rfl

theorem literals_mark (F D : CPtr) : literals (formatMark :: F) D = .ok (formatMark :: F, D) := by
  cases F with
  | nil => rfl
  | cons c F => rfl

theorem not_mark (hne : c ≠ formatMark) (hzero : c ≠ 0) : ¬ (c = formatMark ∨ c = 0) :=
  not_or.mpr ⟨hne, hzero⟩

theorem exists_behind (f : List Byte) :
    ∃ ch2 p, terminated f = ch2 :: p ∧ isTabOrSpace ch2 = startsBlank f := by
  cases f with
  | nil => exact ⟨0, [], rfl, rfl⟩
  | cons e g => exact ⟨e, terminated g, rfl, rfl⟩

theorem literals_lastBlank (hne : c ≠ formatMark) (hzero : c ≠ 0)
    (hb : (isTabOrSpace c && !startsBlank f) = true) (D : CPtr) :
    literals (c :: terminated f) D = skipBlanks D.tail >>= literals (terminated f) := by
  obtain ⟨ch2, p, hf, hch2⟩ := exists_behind f
  rw [hf, literals, if_neg (not_mark hne hzero), hch2, if_pos hb]

theorem literals_char (hne : c ≠ formatMark) (hzero : c ≠ 0)
    (hb : ¬ (isTabOrSpace c && !startsBlank f) = true) (hlow : ¬ 0x80 < c.toNat) (D : CPtr) :
    literals (c :: terminated f) D = literals (terminated f) D.tail := by
  obtain ⟨ch2, p, hf, hch2⟩ := exists_behind f
  rw [hf, literals, if_neg (not_mark hne hzero), hch2, if_neg hb, if_neg hlow]

theorem literals_pair (hne : c ≠ formatMark) (hhigh : 0x80 < c.toNat) (e : Byte) (F D : CPtr) :
    literals (c :: e :: F) D = literals F D.tail.tail := by
  have hzero : c ≠ 0 := by
    rintro rfl
    exact absurd hhigh (by decide)
  have hblank : isTabOrSpace c = false := by
    rw [isTabOrSpace, Bool.or_eq_false_iff, decide_eq_false_iff_not, decide_eq_false_iff_not]
    constructor
    · rintro rfl
      exact absurd hhigh (by decide)
    · rintro rfl
      exact absurd hhigh (by decide)
  rw [literals, if_neg (not_mark hne hzero), hblank, Bool.false_and, if_neg Bool.false_ne_true,
    if_pos hhigh]

/-- The loop at a part of the format. -/
abbrev parseFrom (F : CPtr) (r : Rest) (atm : Tm) : Prog (Option Tm) :=
  loopOf parseStep ⟨F, r.ptr, true, atm⟩

theorem parseFrom_congr {F F' : CPtr} {r r' : Rest} (h : literals F r.ptr = literals F' r'.ptr)
    (atm : Tm) : parseFrom F r atm = parseFrom F' r' atm := by
  refine loopOf_congr ?_
  rw [parseStep_valid, parseStep_valid, h]

theorem parseFrom_undef {u : Ub} (h : literals F r.ptr = .undef u) (atm : Tm) :
    Verdict.undefined.Describes (parseFrom F r atm) := by
  refine ⟨u, .loop_step ?_⟩
  rw [parseStep_valid, h, Outcome.undef_bind]

theorem parseStep_mark (F : CPtr) (r : Rest) (atm : Tm) :
    parseStep ⟨formatMark :: F, r.ptr, true, atm⟩ =
      conversion F r.ptr atm >>= fun s' => pure (.again s') := by
  rw [parseStep_valid, literals_mark, Outcome.ok_bind]
  rfl

/-- After data that is not valid the loop ends, if the format has not been left. -/
theorem parse_invalid (c : Byte) (F D : CPtr) (atm : Tm) :
    Returns (loopOf parseStep ⟨c :: F, D, false, atm⟩) none := by
  refine .loop_exit (.lift ?_)
  rw [parseStep]
  dsimp only
  rw [deref_cons, Outcome.ok_bind, if_neg fun h => Bool.false_ne_true h.2]
  rfl

theorem Verdict.Describes.again {v : Verdict} {s s' : ParseState}
    (hstep : parseStep s = .ok (.again s')) (h : v.Describes (loopOf parseStep s')) :
    v.Describes (loopOf parseStep s) := by
  cases v with
  | accepted atm => exact Returns.loop_again (.lift hstep) h
  | refused => exact Returns.loop_again (.lift hstep) h
  | undefined =>
    obtain ⟨u, hu⟩ := h
    exact ⟨u, .loop_again (.lift hstep) hu⟩

theorem parseFrom_conversion {x : Directive} {complete : Bool} {xs : List Directive}
    (hconv : (x.turn r).Describes (terminated g) (x.store r atm) (conversion F r.ptr atm))
    (hrest : ∀ r atm, (verdict complete xs r atm).Describes (parseFrom (terminated g) r atm)) :
    (verdict complete (x :: xs) r atm).Describes (parseFrom (formatMark :: F) r atm) := by
  have hstep := parseStep_mark F r atm
  rw [verdict]
  cases hturn : x.turn r with
  | on r' =>
    rw [hturn] at hconv
    have hconv : conversion F r.ptr atm = .ok _ := hconv
    rw [hconv] at hstep
    exact .again hstep (hrest r' (x.store r atm))
  | absent =>
    rw [hturn] at hconv
    obtain ⟨D, atm', hconv⟩ := hconv
    rw [hconv] at hstep
    obtain ⟨ch2, p, hg, -⟩ := exists_behind g
    rw [hg] at hstep
    exact .loop_again (.lift hstep) (parse_invalid ch2 p D atm')
  | undefined =>
    rw [hturn] at hconv
    obtain ⟨u, hconv⟩ := hconv
    rw [hconv] at hstep
    exact ⟨u, .loop_step hstep⟩

theorem turn_zero (w : List Byte) (r r' : Rest) : (Directive.field w 0).turn r ≠ .on r' := by
  intro h
  rw [Directive.turn.eq_def] at h
  cases r with
  | none => cases h
  | some d =>
    dsimp only at h
    rw [if_neg (show (0 : Byte) ∉ fieldFlags by decide)] at h
    split_ifs at h

theorem parseFrom_unfinished (hw : ∀ b ∈ f, isDigit b = true) (r : Rest) (atm : Tm) :
    Verdict.undefined.Describes (parseFrom (formatMark :: terminated f) r atm) := by
  have hstep := parseStep_mark (terminated f) r atm
  have hconv := conversion_field (F := []) hw isDigit_zero (by decide) r atm
  cases hturn : (Directive.field f 0).turn r with
  | on r' => exact absurd hturn (turn_zero f r r')
  | absent =>
    rw [hturn] at hconv
    obtain ⟨D, atm', hconv⟩ := hconv
    rw [terminated, hconv] at hstep
    exact .again hstep ⟨.outOfBounds, .loop_step rfl⟩
  | undefined =>
    rw [hturn] at hconv
    obtain ⟨u, hconv⟩ := hconv
    rw [terminated, hconv] at hstep
    exact ⟨u, .loop_step hstep⟩

theorem parse_describes (hzero : 0 ∉ f) (r : Rest) (atm : Tm) :
    (verdict (directives f).2 (directives f).1 r atm).Describes (parseFrom (terminated f) r atm) := by
  fun_induction directives f generalizing r atm with
  | case1 => exact Returns.loop_exit (.lift rfl)
  | case2 f hdrop =>
    rw [List.dropWhile_eq_nil_iff] at hdrop
    exact parseFrom_unfinished hdrop r atm
  | case3 f flag g hdrop hle x ih =>
    have hf : f = f.takeWhile isDigit ++ flag :: g := by
      rw [← hdrop, List.takeWhile_append_dropWhile]
    have hw : ∀ b ∈ f.takeWhile isDigit, isDigit b = true := fun b => List.mem_takeWhile_imp
    have hflag : isDigit flag = false := by
      have hhead := List.head?_dropWhile_not isDigit f
      rw [hdrop] at hhead
      exact hhead
    have hg : 0 ∉ g := by
      intro h
      rw [hf] at hzero
      exact hzero (List.mem_cons_of_mem _ (List.mem_append_right _ (List.mem_cons_of_mem _ h)))
    have hshape : terminated (formatMark :: f) =
        formatMark :: (f.takeWhile isDigit ++ flag :: terminated g) := by
      conv_lhs => rw [hf]
      rw [terminated_cons, terminated_append, terminated_cons]
    rw [hshape]
    refine parseFrom_conversion ?_ fun r atm => ih hg r atm
    by_cases hmark : flag = formatMark
    · rw [show x = .percent (f.takeWhile isDigit) from if_pos hmark, hmark]
      exact conversion_percent hw r atm
    · rw [show x = .field (f.takeWhile isDigit) flag from if_neg hmark]
      exact conversion_field hw hflag hmark r atm
  | case4 c f hne hb ih =>
    have hc := (List.ne_of_not_mem_cons hzero).symm
    have hf := List.not_mem_of_not_mem_cons hzero
    have hlit := literals_lastBlank hne hc hb r.ptr
    rw [← Rest.ptr_next] at hlit
    rw [verdict, Directive.turn.eq_def]
    cases hnext : r.next with
    | none =>
      rw [hnext] at hlit
      exact parseFrom_undef hlit atm
    | some d =>
      rw [hnext, Rest.ptr, skipBlanks_terminated, Outcome.ok_bind] at hlit
      dsimp only
      have hrun : parseFrom (c :: terminated f) r atm =
          parseFrom (terminated f) (some (d.dropWhile isTabOrSpace)) atm :=
        parseFrom_congr hlit atm
      rw [terminated_cons, hrun]
      exact ih hf _ atm
  | case5 c hne hhigh hb => exact parseFrom_undef (literals_pair hne hhigh 0 [] _) atm
  | case6 c hne hhigh e g hb ih =>
    have hg := List.not_mem_of_not_mem_cons (List.not_mem_of_not_mem_cons hzero)
    have hlit := literals_pair hne hhigh e (terminated g) r.ptr
    rw [← Rest.ptr_next, ← Rest.ptr_next] at hlit
    rw [verdict, Directive.turn.eq_def, terminated_cons, terminated_cons, parseFrom_congr hlit]
    exact ih hg _ atm
  | case7 c f hne hb hlow ih =>
    have hc := (List.ne_of_not_mem_cons hzero).symm
    have hf := List.not_mem_of_not_mem_cons hzero
    have hlit := literals_char hne hc hb hlow r.ptr
    rw [← Rest.ptr_next] at hlit
    rw [verdict, Directive.turn.eq_def, terminated_cons, parseFrom_congr hlit]
    exact ih hf _ atm

end Time
end Huicpp
