import Mathlib
import Huicpp.Str.HMstr
import Huicpp.Str.Split
import Huicpp.Str.Trim

/-!
# Str.NormalConf

`HNormalConfig::LoadConfig`. Of a line that is split at `=`, the second piece is the value: it ends at
the second `=`.

* `loadLine_returns`: what one line does to the map.
* `loadLines_returns`: by induction, what all of them do.
* `loadConfig_right_iff`: a key has the value that the file gives it exactly if there is one `=` in the
  last line for it.
-/

namespace Huicpp
namespace Str

open Cxx Cxx.Text

def eqSign : Byte := charByte '='

def semicolon : Byte := charByte ';'

/-- `adapt::line_br()` -/
def lineBr : Byte := 10

def minContentLength : Nat := 10

/-- `HNormalConfig::isNoteLine` -/
def isNoteLine (l : List Byte) : Outcome Bool := do
  if l.length < 3 then return true
  let start ← substr l 0 (some 2)
  if start = [semicolon, semicolon] then return true
  return false

/-- One turn of the loop over the lines, on `ret` and `m_conf` -/
def loadLine (l : List Byte) : HRet × HMstr → Prog (HRet × HMstr)
  | (ret, conf) => do
    let note ← isNoteLine l
    if note then return (ret, conf)
    let (ret, vs) ← split l [eqSign] [] 0
    if ret ≠ .ok then return (ret, conf)
    match vs with
    | key :: val :: _ =>
      let ikey ← trim key
      let ival ← trim val
      return (ret, conf.setValue ikey ival)
    | _ => return (ret, conf)

/-- The loop over the lines -/
def loadLines : List (List Byte) → HRet × HMstr → Prog (HRet × HMstr)
  | [], s => return s
  | l :: lines, s => do
    let s ← loadLine l s
    loadLines lines s

/-- `HNormalConfig::LoadConfig`, with what `HFileStr::ReadToString` delivers. The result has the final
`m_conf`. -/
def loadConfig (readToString : HRet × List Byte) (strConfigFileName : List Byte) (conf : HMstr) :
    Prog (HRet × HMstr) := do
  if ¬ ¬ strConfigFileName.isEmpty then return (.invlPara, conf)
  let (ret, strConfigContent) := readToString
  if ret ≠ .ok then return (ret, conf)
  if ¬ strConfigContent.length > minContentLength then return (.srcErr, conf)
  let (ret, lines) ← split strConfigContent [lineBr] [] 0
  if ret ≠ .ok then return (ret, conf)
  loadLines lines (ret, conf)

/-! ## What a file says -/

/-- The line gives `k` the value `v`. -/
def Defines (l k v : List Byte) : Prop :=
  3 ≤ l.length ∧ ¬ [semicolon, semicolon] <+: l ∧
    ∃ a b, l = a ++ eqSign :: b ∧ eqSign ∉ a ∧ strip a = k ∧ strip b = v

/-- `l` is the last of the lines for `k`. -/
inductive LastDefines (k : List Byte) : List (List Byte) → List Byte → Prop where
  | here {l : List Byte} {lines : List (List Byte)} : (∃ v, Defines l k v) →
      (∀ l' ∈ lines, ∀ v, ¬ Defines l' k v) → LastDefines k (l :: lines) l
  | behind {l x : List Byte} {lines : List (List Byte)} : LastDefines k lines x →
      LastDefines k (l :: lines) x

/-- `k` has the value that the last line for it says, or what it had before. -/
def ReadRight (lines : List (List Byte)) (conf conf' : HMstr) (k : List Byte) : Prop :=
  (∀ l v, LastDefines k lines l → Defines l k v → conf'.getValue k = v) ∧
    ((∀ l ∈ lines, ∀ v, ¬ Defines l k v) → conf'.find k = conf.find k)

variable {l a b k v x : List Byte} {lines : List (List Byte)} {conf conf' : HMstr}

theorem isNoteLine_eq (l : List Byte) :
    isNoteLine l = .ok (decide (l.length < 3 ∨ [semicolon, semicolon] <+: l)) := by
  rw [isNoteLine]
  by_cases hlen : l.length < 3
  · rw [if_pos hlen, decide_eq_true (.inl hlen)]
    rfl
  · have hstart : substr l 0 (some 2) = .ok (l.take 2) := if_pos (Nat.zero_le _)
    have hiff : l.take 2 = [semicolon, semicolon] ↔ [semicolon, semicolon] <+: l := by
      rw [List.prefix_iff_eq_take]
      exact eq_comm
    rw [if_neg hlen, hstart, Outcome.ok_bind]
    by_cases hnote : [semicolon, semicolon] <+: l
    · rw [if_pos (hiff.mpr hnote), decide_eq_true (.inr hnote)]
      rfl
    · rw [if_neg fun h => hnote (hiff.mp h), decide_eq_false (not_or.mpr ⟨hlen, hnote⟩)]
      rfl

theorem Defines.eq_cut (h : Defines (a ++ eqSign :: b) k v) (ha : eqSign ∉ a) :
    strip a = k ∧ strip b = v := by
  obtain ⟨_, _, a', b', hl, ha', hk, hv⟩ := h
  obtain ⟨rfl, rfl⟩ := cut_inj ha ha' hl
  exact ⟨hk, hv⟩

theorem count_eqSign (ha : eqSign ∉ a) : (a ++ eqSign :: b).count eqSign = 1 ↔ eqSign ∉ b := by
  rw [List.count_append, List.count_eq_zero.mpr ha, List.count_cons_self, Nat.zero_add,
    Nat.add_eq_right, List.count_eq_zero]

/-! ## One line -/

/-- What a line does: nothing to other keys, and its own gets a value, which is right if there is no
second `=`. -/
structure LineDone (l : List Byte) (conf conf' : HMstr) : Prop where
  others : ∀ k, (∀ v, ¬ Defines l k v) → conf'.find k = conf.find k
  own : ∀ k v, Defines l k v → ∃ v', conf'.find k = some v' ∧ (v' = v ↔ l.count eqSign = 1)

theorem LineDone.of_none (h : ∀ k v, ¬ Defines l k v) : LineDone l conf conf where
  others := fun _ _ => rfl
  own := fun k v hdefines => absurd hdefines (h k v)

/-- The text up to the second `=` as the value. -/
theorem LineDone.of_set (ha : eqSign ∉ a) (hlen : 3 ≤ (a ++ eqSign :: b).length)
    (hnote : ¬ [semicolon, semicolon] <+: a ++ eqSign :: b) {val : List Byte}
    (hval : strip val = strip b ↔ eqSign ∉ b) :
    LineDone (a ++ eqSign :: b) conf (conf.setValue (strip a) (strip val)) where
  others := by
    intro k hk
    have hne : k ≠ strip a := by
      rintro rfl
      exact hk (strip b) ⟨hlen, hnote, a, b, rfl, ha, rfl, rfl⟩
    rw [HMstr.find_setValue, if_neg hne]
  own := by
    intro k v hdefines
    obtain ⟨rfl, rfl⟩ := hdefines.eq_cut ha
    refine ⟨strip val, ?_, ?_⟩
    · rw [HMstr.find_setValue, if_pos rfl]
    · rw [hval, count_eqSign ha]

theorem strip_ne (ha : eqSign ∉ a) (hb : eqSign ∈ b) : strip a ≠ strip b := by
  intro heq
  have heqSign : eqSign ∉ trStr := by decide
  rw [← mem_strip heqSign] at ha hb
  exact ha (heq ▸ hb)

theorem splits_cut (ha : eqSign ∉ a) {ps : List (List Byte)} (hb : Splits [eqSign] b ps) :
    Splits [eqSign] (a ++ eqSign :: b) (a :: ps) := by
  have hdisjoint : a.Disjoint [eqSign] := by
    rw [List.disjoint_singleton]
    exact ha
  have hcut := Splits.cut (firstAt_of_disjoint (List.cons_ne_nil eqSign []) hdisjoint b) hb
  rwa [List.append_assoc] at hcut

theorem exists_value (ha : eqSign ∉ a) (b : List Byte) :
    ∃ val ps, Splits [eqSign] (a ++ eqSign :: b) (a :: val :: ps) ∧
      (strip val = strip b ↔ eqSign ∉ b) := by
  by_cases hb : eqSign ∈ b
  · obtain ⟨val, c, rfl, hval⟩ := List.eq_append_cons_of_mem hb
    obtain ⟨ps, hps⟩ := Splits.exists_pieces (List.cons_ne_nil eqSign []) c
    refine ⟨val, ps, splits_cut ha (splits_cut hval hps), ?_⟩
    exact iff_of_false (strip_ne hval hb) (not_not.mpr hb)
  · have hlast : Splits [eqSign] b [b] :=
      Splits.singleton_iff.mpr ⟨List.cons_ne_nil _ _, by simp, by simpa using hb⟩
    exact ⟨b, [], splits_cut ha hlast, iff_of_true rfl hb⟩

theorem loadLine_split (hlen : ¬ l.length < 3) (hnote : ¬ [semicolon, semicolon] <+: l)
    {vs : List (List Byte)} (hs : Splits [eqSign] l vs) {r : HRet × HMstr}
    (h : Prog.Returns (match vs with
      | key :: val :: _ => (do
        let ikey ← trim key
        let ival ← trim val
        return (.ok, conf.setValue ikey ival) : Prog (HRet × HMstr))
      | _ => return (.ok, conf)) r) : Prog.Returns (loadLine l (.ok, conf)) r := by
  have hne : l ≠ [] := by
    rintro rfl
    exact hlen (by decide)
  have hok : isNoteLine l = .ok false := by
    rw [isNoteLine_eq, decide_eq_false (not_or.mpr ⟨hlen, hnote⟩)]
  have hsplit := split_returns hne (List.cons_ne_nil eqSign []) (Nat.zero_le _) hs []
  refine (Prog.Returns.lift hok).bind ?_
  exact hsplit.bind h

theorem loadLine_returns (l : List Byte) (conf : HMstr) :
    ∃ conf', Prog.Returns (loadLine l (.ok, conf)) (.ok, conf') ∧ LineDone l conf conf' := by
  by_cases hskip : l.length < 3 ∨ [semicolon, semicolon] <+: l
  · have hok : isNoteLine l = .ok true := by
      rw [isNoteLine_eq, decide_eq_true hskip]
    refine ⟨conf, (Prog.Returns.lift hok).bind (.pure _), .of_none fun k v hdefines => ?_⟩
    rcases hskip with hlen | hnote
    · exact absurd hdefines.1 (not_le.mpr hlen)
    · exact hdefines.2.1 hnote
  · obtain ⟨hlen, hnote⟩ := not_or.mp hskip
    by_cases heq : eqSign ∈ l
    · obtain ⟨a, b, rfl, ha⟩ := List.eq_append_cons_of_mem heq
      obtain ⟨val, ps, hs, hval⟩ := exists_value ha b
      refine ⟨conf.setValue (strip a) (strip val), loadLine_split hlen hnote hs ?_,
        .of_set ha (not_lt.mp hlen) hnote hval⟩
      exact (Prog.Returns.lift (trim_eq a)).bind ((Prog.Returns.lift (trim_eq val)).bind (.pure _))
    · have hs : Splits [eqSign] l [l] :=
        Splits.singleton_iff.mpr ⟨List.cons_ne_nil _ _, by simp, by simpa using heq⟩
      refine ⟨conf, loadLine_split hlen hnote hs (.pure _), .of_none fun k v hdefines => ?_⟩
      obtain ⟨_, _, a, b, rfl, _⟩ := hdefines
      exact heq (by simp)

/-! ## All lines -/

theorem LastDefines.defines (h : LastDefines k lines x) : x ∈ lines ∧ ∃ v, Defines x k v := by
  induction h with
  | here hdefines _ => exact ⟨List.mem_cons_self .., hdefines⟩
  | behind _ ih => exact ⟨List.mem_cons_of_mem _ ih.1, ih.2⟩

/-- What the lines do to the map, key by key. -/
structure LinesDone (lines : List (List Byte)) (conf conf' : HMstr) : Prop where
  others : ∀ k, (∀ l ∈ lines, ∀ v, ¬ Defines l k v) → conf'.find k = conf.find k
  own : ∀ k l v, LastDefines k lines l → Defines l k v →
    ∃ v', conf'.find k = some v' ∧ (v' = v ↔ l.count eqSign = 1)

theorem LinesDone.cons {conf₁ : HMstr} (hline : LineDone l conf conf₁)
    (hlines : LinesDone lines conf₁ conf') : LinesDone (l :: lines) conf conf' where
  others := by
    intro k hk
    rw [hlines.others k fun l' hl' => hk l' (List.mem_cons_of_mem l hl'),
      hline.others k (hk l (List.mem_cons_self ..))]
  own := by
    intro k x v hlast hdefines
    cases hlast with
    | here _ hbehind =>
      obtain ⟨v', hfind, hiff⟩ := hline.own k v hdefines
      exact ⟨v', by rw [hlines.others k hbehind, hfind], hiff⟩
    | behind hlast => exact hlines.own k x v hlast hdefines

theorem loadLines_returns (lines : List (List Byte)) (conf : HMstr) :
    ∃ conf', Prog.Returns (loadLines lines (.ok, conf)) (.ok, conf') ∧ LinesDone lines conf conf' := by
  induction lines generalizing conf with
  | nil =>
    refine ⟨conf, .pure _, fun k _ => rfl, fun k l v hlast _ => ?_⟩
    cases hlast
  | cons l lines ih =>
    obtain ⟨conf₁, hline, hdone⟩ := loadLine_returns l conf
    obtain ⟨conf', hlines, hdones⟩ := ih conf₁
    exact ⟨conf', hline.bind hlines, .cons hdone hdones⟩

theorem readRight_iff (h : LinesDone lines conf conf') (k : List Byte) :
    ReadRight lines conf conf' k ↔ ∀ l, LastDefines k lines l → l.count eqSign = 1 := by
  constructor
  · rintro ⟨hvalue, _⟩ l hlast
    obtain ⟨_, v, hdefines⟩ := hlast.defines
    obtain ⟨v', hfind, hiff⟩ := h.own k l v hlast hdefines
    rw [← hiff, ← hvalue l v hlast hdefines, HMstr.getValue, hfind, Option.getD_some]
  · intro hone
    refine ⟨fun l v hlast hdefines => ?_, h.others k⟩
    obtain ⟨v', hfind, hiff⟩ := h.own k l v hlast hdefines
    rw [HMstr.getValue, hfind, Option.getD_some, hiff.mpr (hone l hlast)]

variable {name content : List Byte}

theorem loadConfig_returns (hname : name ≠ []) (hlen : content.length > minContentLength)
    (hs : Splits [lineBr] content lines) (conf : HMstr) :
    ∃ conf', Prog.Returns (loadConfig (.ok, content) name conf) (.ok, conf') ∧
      LinesDone lines conf conf' := by
  obtain ⟨conf', hlines, hdone⟩ := loadLines_returns lines conf
  have hne : content ≠ [] := List.ne_nil_of_length_pos (Nat.zero_lt_of_lt hlen)
  have hempty : ¬ ¬ ¬ name.isEmpty = true := by
    rw [not_not, List.isEmpty_iff]
    exact hname
  have hsplit := split_returns hne (List.cons_ne_nil lineBr []) (Nat.zero_le _) hs []
  refine ⟨conf', ?_, hdone⟩
  rw [loadConfig, if_neg hempty]
  simp only [ne_eq, not_true_eq_false, if_false, if_neg (not_not.mpr hlen)]
  exact hsplit.bind hlines

/-- **Reading a configuration.** `LoadConfig` returns `OK`. A key has the value that the last line for
it says exactly if that line has one `=`, and a key without a line keeps its value. -/
theorem loadConfig_right_iff (hname : name ≠ []) (hlen : content.length > minContentLength)
    (conf : HMstr) :
    ∃ lines conf', Splits [lineBr] content lines ∧
      Prog.Returns (loadConfig (.ok, content) name conf) (.ok, conf') ∧
      ∀ k, ReadRight lines conf conf' k ↔ ∀ l, LastDefines k lines l → l.count eqSign = 1 := by
  obtain ⟨lines, hs⟩ := Splits.exists_pieces (List.cons_ne_nil lineBr []) content
  obtain ⟨conf', hreturns, hdone⟩ := loadConfig_returns hname hlen hs conf
  exact ⟨lines, conf', hs, hreturns, readRight_iff hdone⟩

/-- The lines `k = v`, `k = w` and `x=a=b`: the second one says what `k` is, and `x` is cut. -/
theorem loadConfig_right_iff_twice : ∃ conf',
    Prog.Returns (loadConfig (.ok, [107, 61, 118, 10, 107, 61, 119, 10, 120, 61, 97, 61, 98]) [97]
      .empty) (.ok, conf') ∧ conf'.getValue [107] = [119] ∧
    ¬ ReadRight [[107, 61, 118], [107, 61, 119], [120, 61, 97, 61, 98]] .empty conf' [120] := by
  obtain ⟨lines, conf', hs, hreturns, hright⟩ := @loadConfig_right_iff [97]
    [107, 61, 118, 10, 107, 61, 119, 10, 120, 61, 97, 61, 98] (List.cons_ne_nil _ _) (by decide) .empty
  have hlines : Splits [lineBr] [107, 61, 118, 10, 107, 61, 119, 10, 120, 61, 97, 61, 98]
      [[107, 61, 118], [107, 61, 119], [120, 61, 97, 61, 98]] :=
    Splits.singleton_iff.mpr ⟨List.cons_ne_nil _ _, by decide, by decide⟩
  obtain rfl := hs.deterministic hlines
  have hsecond : Defines [107, 61, 119] [107] [119] :=
    ⟨by decide, by decide, [107], _, rfl, by decide, rfl, rfl⟩
  have hthird : Defines [120, 61, 97, 61, 98] [120] [97, 61, 98] :=
    ⟨by decide, by decide, [120], _, rfl, by decide, rfl, rfl⟩
  have hother : ∀ v, ¬ Defines [120, 61, 97, 61, 98] [107] v := by
    intro v hdefines
    exact absurd (@Defines.eq_cut [120] _ _ _ hdefines (by decide)).1 (by decide)
  have hlast : LastDefines [107] [[107, 61, 118], [107, 61, 119], [120, 61, 97, 61, 98]]
      [107, 61, 119] :=
    .behind (.here ⟨_, hsecond⟩ (List.forall_mem_singleton.mpr hother))
  have hone : ReadRight [[107, 61, 118], [107, 61, 119], [120, 61, 97, 61, 98]] .empty conf' [107] := by
    refine (hright [107]).mpr fun l hl => ?_
    cases hl with
    | here _ hbehind => exact absurd hsecond (hbehind _ (List.mem_cons_self ..) _)
    | behind hl =>
      cases hl with
      | here _ _ => decide
      | behind hl =>
        obtain ⟨hin, v, hdefines⟩ := hl.defines
        rw [List.mem_singleton.mp hin] at hdefines
        exact absurd hdefines (hother v)
  refine ⟨conf', hreturns, hone.1 _ _ hlast hsecond, fun hx => ?_⟩
  exact absurd ((hright [120]).mp hx _ (.behind (.behind (.here ⟨_, hthird⟩ (List.forall_mem_nil _)))))
    (by decide)

/-- `a========b` gives `a` the empty value. -/
theorem loadConfig_cuts : ¬ ∀ name content : List Byte, name ≠ [] →
    content.length > minContentLength → ∀ conf lines, Splits [lineBr] content lines →
      ∃ conf', Prog.Returns (loadConfig (.ok, content) name conf) (.ok, conf') ∧
        ∀ k, ReadRight lines conf conf' k := by
  intro hall
  have hs : Splits [lineBr] (97 :: (List.replicate 9 eqSign ++ [98]))
      [97 :: (List.replicate 9 eqSign ++ [98])] := .last (by decide)
  have hlast : LastDefines [97] [97 :: (List.replicate 9 eqSign ++ [98])]
      (97 :: (List.replicate 9 eqSign ++ [98])) :=
    .here ⟨_, by decide, by decide, [97], _, rfl, by decide, rfl, rfl⟩ (by simp)
  obtain ⟨conf', hreturns, hright⟩ := hall [97] _ (List.cons_ne_nil _ _) (by decide) .empty _ hs
  obtain ⟨conf'', hreturns', hdone⟩ := loadConfig_returns (List.cons_ne_nil 97 []) (by decide) hs .empty
  cases hreturns.unique hreturns'
  have hcount := (readRight_iff hdone [97]).mp (hright [97]) _ hlast
  exact absurd hcount (by decide)

end Str
end Huicpp
