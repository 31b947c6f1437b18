import Mathlib
import Huicpp.Time.Directives

/-!
# Time.ParsedTime

What `time_basic::FromStr` does with data that has every part of the format, and with other data. The
characters of a format are passed without a look at the data, and its end is not looked for either. So
the time stays as it is only if a conversion finds that it is absent (`Stops`) before the data has been
left; where nothing is absent, everything has to match.
-/

namespace Huicpp
namespace Time

open Cxx Prog

/-- A blank is matched by a blank, every other character by itself. -/
def CharMatches (c : Byte) : List Byte → Prop
  | [] => False
  | e :: _ => e = c ∨ (isTabOrSpace c = true ∧ isTabOrSpace e = true)

/-- The data has the part. -/
def Directive.Matches (x : Directive) (d : List Byte) : Prop :=
  match x with
  | .char c => CharMatches c d
  | .pair c e => [c, e] <+: d
  | .lastBlank c => CharMatches c d
  | .percent _ => d.head? = some formatMark
  | .field w flag => fieldDigits w d ≠ [] ∧ flag ∈ fieldFlags

/-- What is left of the data behind the part. -/
def Directive.rest (x : Directive) (d : List Byte) : List Byte :=
  match x with
  | .char _ => d.tail
  | .pair _ _ => d.tail.tail
  | .lastBlank _ => d.tail.dropWhile isTabOrSpace
  | .percent _ => d.tail
  | .field w _ => d.drop (fieldDigits w d).length

/-- The numbers of the part are of their types. -/
def Directive.Fits (x : Directive) (d : List Byte) : Prop :=
  match x with
  | .percent w => WidthFits w
  | .field w flag => WidthFits w ∧ NumberFits flag (fieldDigits w d)
  | _ => True

/-- The data has every part. -/
def AllMatch : List Directive → List Byte → Prop
  | [], _ => True
  | x :: xs, d => x.Matches d ∧ AllMatch xs (x.rest d)

/-- All numbers are of their types. -/
def AllFit : List Directive → List Byte → Prop
  | [], _ => True
  | x :: xs, d => x.Fits d ∧ AllFit xs (x.rest d)

/-- What the parts store. -/
def stored : List Directive → List Byte → Tm → Tm
  | [], _, atm => atm
  | x :: xs, d, atm => stored xs (x.rest d) (x.store (some d) atm)

/-- A conversion comes that the data does not have. Up to there the characters of the format take the
data along, but do not leave it where it is looked at. -/
def Stops : List Directive → Rest → Prop
  | [], _ => False
  | x :: xs, r =>
    match x.turn r with
    | .on r' => Stops xs r'
    | .absent => True
    | .undefined => False

/-! ## Data that has every part -/

variable {f d : List Byte} {x : Directive} {xs : List Directive} {complete : Bool} {r : Rest} {atm : Tm}

theorem turn_of_fits (hm : x.Matches d) (hf : x.Fits d) : x.turn (some d) = .on (some (x.rest d)) := by
  cases x with
  | char c =>
    cases d with
    | nil => exact hm.elim
    | cons e d => rfl
  | pair c e =>
    obtain ⟨d', rfl⟩ := hm
    rfl
  | lastBlank c =>
    cases d with
    | nil => exact hm.elim
    | cons e d => rfl
  | percent w =>
    have hw : WidthFits w := hf
    have hhead : d.head? = some formatMark := hm
    rw [Directive.turn, if_neg (not_not.mpr hw), if_pos hhead]
    rfl
  | field w flag =>
    rw [Directive.turn, if_neg (not_not.mpr hf.1)]
    dsimp only
    rw [if_neg hm.1, if_neg (not_not.mpr hf.2), if_pos hm.2]
    rfl

theorem turn_of_not_fits (hm : x.Matches d) (hf : ¬ x.Fits d) : x.turn (some d) = .undefined := by
  cases x with
  | char c => exact absurd trivial hf
  | pair c e => exact absurd trivial hf
  | lastBlank c => exact absurd trivial hf
  | percent w =>
    have hw : ¬ WidthFits w := hf
    rw [Directive.turn, if_pos hw]
  | field w flag =>
    rw [Directive.turn]
    by_cases hw : WidthFits w
    · rw [if_neg (not_not.mpr hw)]
      dsimp only
      rw [if_neg hm.1, if_pos fun hnum => hf ⟨hw, hnum⟩]
    · rw [if_pos hw]

theorem verdict_accepted (hm : AllMatch xs d) (hf : AllFit xs d) :
    verdict true xs (some d) atm = .accepted (stored xs d atm) := by
  induction xs generalizing d atm with
  | nil => rfl
  | cons x xs ih =>
    rw [verdict, turn_of_fits hm.1 hf.1, stored]
    exact ih hm.2 hf.2

theorem verdict_of_not_allFit (hm : AllMatch xs d) (hf : ¬ AllFit xs d) :
    verdict complete xs (some d) atm = .undefined := by
  induction xs generalizing d atm with
  | nil => exact absurd trivial hf
  | cons x xs ih =>
    rw [verdict]
    by_cases hx : x.Fits d
    · rw [turn_of_fits hm.1 hx]
      exact ih hm.2 fun hxs => hf ⟨hx, hxs⟩
    · rw [turn_of_not_fits hm.1 hx]

theorem complete_of_accepted {atm' : Tm} (h : verdict complete xs r atm = .accepted atm') :
    complete = true := by
  induction xs generalizing r atm with
  | nil =>
    rw [verdict] at h
    split at h
    · assumption
    · cases h
  | cons x xs ih =>
    rw [verdict] at h
    split at h
    · exact ih h
    · cases h
    · cases h

theorem verdict_refused_iff : verdict complete xs r atm = .refused ↔ Stops xs r := by
  induction xs generalizing r atm with
  | nil =>
    rw [verdict, Stops]
    split <;> simp
  | cons x xs ih =>
    rw [verdict, Stops]
    cases x.turn r with
    | on r' => exact ih
    | absent => simp
    | undefined => simp

/-! ## The time -/

/-- The time is parsed without leaving the format and the data, and it changes only if the data has
every part of the format. -/
def Right (f d : List Byte) : Prop :=
  ∀ (makeMe : Tm → Int) (m_time : Int), ∃ time,
    Returns (fromStr makeMe m_time d (terminated f)) time ∧
      (time ≠ m_time → AllMatch (directives f).1 d)

variable {makeMe : Tm → Int} {m_time : Int}

theorem fromStr_empty (F : CPtr) : Returns (fromStr makeMe m_time [] F) m_time := by
  refine .bind (a := none) ?_ (.pure _)
  rw [parse, if_pos rfl]
  exact .pure none

theorem parse_of_ne_nil (hd : d ≠ []) :
    parse (terminated f) d = parseFrom (terminated f) (some d) .zero :=
  if_neg hd

theorem fromStr_accepted (hzero : 0 ∉ f) (hd : d ≠ []) {atm : Tm}
    (h : verdict (directives f).2 (directives f).1 (some d) .zero = .accepted atm) :
    Returns (fromStr makeMe m_time d (terminated f)) (makeMe atm) := by
  have hrun := parse_describes hzero (some d) .zero
  rw [h, ← parse_of_ne_nil hd] at hrun
  exact .bind hrun (.pure _)

theorem fromStr_refused (hzero : 0 ∉ f) (hd : d ≠ [])
    (h : verdict (directives f).2 (directives f).1 (some d) .zero = .refused) :
    Returns (fromStr makeMe m_time d (terminated f)) m_time := by
  have hrun := parse_describes hzero (some d) .zero
  rw [h, ← parse_of_ne_nil hd] at hrun
  exact .bind hrun (.pure _)

theorem fromStr_undefined (hzero : 0 ∉ f) (hd : d ≠ [])
    (h : verdict (directives f).2 (directives f).1 (some d) .zero = .undefined) (time : Int) :
    ¬ Returns (fromStr makeMe m_time d (terminated f)) time := by
  have hrun := parse_describes hzero (some d) .zero
  rw [h, ← parse_of_ne_nil hd] at hrun
  obtain ⟨u, hu⟩ := hrun
  exact hu.bind.not_returns time

theorem right_iff (hzero : 0 ∉ f) :
    Right f d ↔ d = [] ∨ Stops (directives f).1 (some d) ∨
      ((directives f).2 = true ∧ AllMatch (directives f).1 d ∧ AllFit (directives f).1 d) := by
  by_cases hd : d = []
  · refine iff_of_true (fun makeMe m_time => ⟨m_time, ?_, fun h => absurd rfl h⟩) (.inl hd)
    rw [hd]
    exact fromStr_empty _
  constructor
  · intro hright
    right
    cases hv : verdict (directives f).2 (directives f).1 (some d) .zero with
    | accepted atm =>
      -- a time that differs from the old one
      obtain ⟨time, hret, hchange⟩ := hright (fun _ => 1) 0
      have htime := hret.unique (fromStr_accepted hzero hd hv)
      have hmatch := hchange (by rw [htime]; exact Int.one_ne_zero)
      refine .inr ⟨complete_of_accepted hv, hmatch, not_not.mp fun hfit => ?_⟩
      rw [verdict_of_not_allFit hmatch hfit] at hv
      cases hv
    | refused => exact .inl (verdict_refused_iff.mp hv)
    | undefined =>
      obtain ⟨time, hret, -⟩ := hright (fun _ => 0) 0
      exact absurd hret (fromStr_undefined hzero hd hv time)
  · rintro (h | hstops | ⟨hcomplete, hmatch, hfit⟩) makeMe m_time
    · exact absurd h hd
    · have hv : verdict (directives f).2 (directives f).1 (some d) .zero = .refused :=
        verdict_refused_iff.mpr hstops
      exact ⟨m_time, fromStr_refused hzero hd hv, fun h => absurd rfl h⟩
    · have hv : verdict true (directives f).1 (some d) .zero = _ := verdict_accepted hmatch hfit
      rw [← hcomplete] at hv
      exact ⟨_, fromStr_accepted hzero hd hv, fun _ => hmatch⟩

/-! ## The default format -/

def defaultFormat : List Byte := "%Y-%m-%d %H:%M:%S".toList.map charByte

/-- A text of digits, at least one -/
structure Digits where
  chars : List Byte
  nonempty : chars ≠ []
  isDigits : ∀ b ∈ chars, isDigit b = true

/-- A text with the separators of the default format. -/
structure TimeText where
  year : Digits
  month : Digits
  day : Digits
  hour : Digits
  minute : Digits
  second : Digits

def TimeText.text (t : TimeText) : List Byte :=
  t.year.chars ++ charByte '-' :: (t.month.chars ++ charByte '-' :: (t.day.chars ++
    charByte ' ' :: (t.hour.chars ++ charByte ':' :: (t.minute.chars ++
      charByte ':' :: (t.second.chars ++ [])))))

/-- The fields that the text names. A `struct tm` counts years from 1900 and months from 0. -/
def TimeText.tm (t : TimeText) : Tm where
  tm_sec := number t.second.chars
  tm_min := number t.minute.chars
  tm_hour := number t.hour.chars
  tm_mday := number t.day.chars
  tm_mon := number t.month.chars - 1
  tm_year := number t.year.chars - 1900

def TimeText.fields (t : TimeText) : List Digits :=
  [t.year, t.month, t.day, t.hour, t.minute, t.second]

/-- Every number is an `int`. -/
def TimeText.Fits (t : TimeText) : Prop := ∀ ds ∈ t.fields, number ds.chars < 2 ^ 31

theorem directives_field {f : List Byte} {flag : Byte} (hd : isDigit flag = false)
    (hm : flag ≠ formatMark) :
    directives (formatMark :: flag :: f) = (.field [] flag :: (directives f).1, (directives f).2) := by
  have hdrop : (flag :: f).dropWhile isDigit = flag :: f := List.dropWhile_cons_of_neg (by simp [hd])
  have htake : (flag :: f).takeWhile isDigit = [] := List.takeWhile_cons_of_neg (by simp [hd])
  rw [directives, if_pos rfl]
  split
  · rename_i h
    rw [hdrop] at h
    cases h
  · rename_i h
    rw [hdrop] at h
    cases h
    dsimp only
    rw [if_neg hm, htake]

theorem directives_char {f : List Byte} {c : Byte} (hm : c ≠ formatMark)
    (hb : isTabOrSpace c = false) (hlow : ¬ 0x80 < c.toNat) :
    directives (c :: f) = (.char c :: (directives f).1, (directives f).2) := by
  rw [directives.eq_def]
  dsimp only
  rw [if_neg hm, if_neg (by simp [hb]), if_neg hlow]

theorem directives_lastBlank {f : List Byte} {c : Byte} (hm : c ≠ formatMark)
    (hb : isTabOrSpace c = true) (hs : startsBlank f = false) :
    directives (c :: f) = (.lastBlank c :: (directives f).1, (directives f).2) := by
  rw [directives.eq_def]
  dsimp only
  rw [if_neg hm, if_pos (by simp [hb, hs])]

theorem directives_default : directives defaultFormat =
    ([.field [] (charByte 'Y'), .char (charByte '-'), .field [] (charByte 'm'), .char (charByte '-'),
      .field [] (charByte 'd'), .lastBlank (charByte ' '), .field [] (charByte 'H'),
      .char (charByte ':'), .field [] (charByte 'M'), .char (charByte ':'),
      .field [] (charByte 'S')], true) := by
  have hformat : defaultFormat = [formatMark, charByte 'Y', charByte '-', formatMark, charByte 'm',
      charByte '-', formatMark, charByte 'd', charByte ' ', formatMark, charByte 'H', charByte ':',
      formatMark, charByte 'M', charByte ':', formatMark, charByte 'S'] := by decide
  rw [hformat, directives_field rfl (by decide), directives_char (by decide) rfl (by decide),
    directives_field rfl (by decide), directives_char (by decide) rfl (by decide),
    directives_field rfl (by decide), directives_lastBlank (by decide) rfl rfl,
    directives_field rfl (by decide), directives_char (by decide) rfl (by decide),
    directives_field rfl (by decide), directives_char (by decide) rfl (by decide),
    directives_field rfl (by decide), directives]

theorem not_blank_of_digit {c : Byte} (h : isDigit c = true) : isTabOrSpace c = false := by
  rw [isTabOrSpace, Bool.or_eq_false_iff, decide_eq_false_iff_not, decide_eq_false_iff_not]
  constructor
  · rintro rfl
    exact absurd h (by decide)
  · rintro rfl
    exact absurd h (by decide)

/-- The parts are in the data. Whether their numbers fit, and what is stored. -/
structure Reads (xs : List Directive) (d : List Byte) (atm : Tm) (fits : Prop) (atm' : Tm) : Prop where
  allMatch : AllMatch xs d
  allFit : AllFit xs d ↔ fits
  stored_eq : stored xs d atm = atm'

namespace Reads

variable {fits : Prop} {atm' : Tm} {flag : Byte}

theorem nil (d : List Byte) (atm : Tm) : Reads [] d atm True atm := ⟨trivial, Iff.rfl, rfl⟩

theorem char (c : Byte) (h : Reads xs d atm fits atm') : Reads (.char c :: xs) (c :: d) atm fits atm' :=
  ⟨⟨.inl rfl, h.allMatch⟩, (and_iff_right trivial).trans h.allFit, h.stored_eq⟩

theorem field (ds : Digits) (hend : d.takeWhile isDigit = []) (hflag : flag ∈ fieldFlags)
    (hy : flag ≠ charByte 'y') (h : Reads xs d (atm.put flag (number ds.chars)) fits atm') :
    Reads (.field [] flag :: xs) (ds.chars ++ d) atm (number ds.chars < 2 ^ 31 ∧ fits) atm' := by
  have hdigits : fieldDigits [] (ds.chars ++ d) = ds.chars := by
    rw [fieldDigits, if_pos rfl, List.takeWhile_append_of_pos ds.isDigits, hend, List.append_nil]
  have hrest : (Directive.field [] flag).rest (ds.chars ++ d) = d := by
    rw [Directive.rest, hdigits, List.drop_left]
  constructor
  · refine ⟨⟨?_, hflag⟩, ?_⟩
    · rw [hdigits]
      exact ds.nonempty
    · rw [hrest]
      exact h.allMatch
  · rw [AllFit, hrest, h.allFit, Directive.Fits, hdigits]
    refine and_congr_left' ⟨fun hfit => hfit.2.1, fun hnum => ?_⟩
    exact ⟨.inl rfl, hnum, fun heq => absurd heq hy⟩
  · rw [stored, hrest, Directive.store, hdigits]
    exact h.stored_eq

theorem lastBlank (c : Byte) (ds : Digits) (h : Reads xs (ds.chars ++ d) atm fits atm') :
    Reads (.lastBlank c :: xs) (c :: (ds.chars ++ d)) atm fits atm' := by
  have hrest : (Directive.lastBlank c).rest (c :: (ds.chars ++ d)) = ds.chars ++ d := by
    obtain ⟨e, es, hes⟩ := List.exists_cons_of_ne_nil ds.nonempty
    have he := ds.isDigits e (by rw [hes]; exact List.mem_cons_self)
    rw [Directive.rest, List.tail_cons, hes, List.cons_append,
      List.dropWhile_cons_of_neg (Bool.eq_false_iff.mp (not_blank_of_digit he))]
  constructor
  · refine ⟨.inl rfl, ?_⟩
    rw [hrest]
    exact h.allMatch
  · rw [AllFit, hrest, h.allFit]
    exact and_iff_right trivial
  · rw [stored, hrest]
    exact h.stored_eq

end Reads

theorem TimeText.reads (t : TimeText) :
    Reads (directives defaultFormat).1 t.text .zero
      (number t.year.chars < 2 ^ 31 ∧ number t.month.chars < 2 ^ 31 ∧ number t.day.chars < 2 ^ 31 ∧
        number t.hour.chars < 2 ^ 31 ∧ number t.minute.chars < 2 ^ 31 ∧
        number t.second.chars < 2 ^ 31 ∧ True) t.tm := by
  rw [directives_default]
  refine .field t.year rfl (by decide) (by decide) (.char _ ?_)
  refine .field t.month rfl (by decide) (by decide) (.char _ ?_)
  refine .field t.day rfl (by decide) (by decide) (.lastBlank _ t.hour ?_)
  refine .field t.hour rfl (by decide) (by decide) (.char _ ?_)
  refine .field t.minute rfl (by decide) (by decide) (.char _ ?_)
  refine .field t.second rfl (by decide) (by decide) ?_
  exact .nil [] t.tm

/-- **The default format.** -/
theorem fromStr_default_iff (t : TimeText) :
    (∀ (makeMe : Tm → Int) (m_time : Int),
      Returns (fromStr makeMe m_time t.text (terminated defaultFormat)) (makeMe t.tm)) ↔ t.Fits := by
  have hread := t.reads
  have hfits : AllFit (directives defaultFormat).1 t.text ↔ t.Fits := by
    rw [hread.allFit]
    simp [TimeText.Fits, TimeText.fields]
  have hzero : 0 ∉ defaultFormat := by decide
  have hne : t.text ≠ [] := List.append_ne_nil_of_left_ne_nil t.year.nonempty _
  have hcomplete : (directives defaultFormat).2 = true := by rw [directives_default]
  rw [← hfits]
  constructor
  · intro hret
    by_contra hfit
    have hv : verdict (directives defaultFormat).2 (directives defaultFormat).1 (some t.text) .zero =
        .undefined := verdict_of_not_allFit hread.allMatch hfit
    exact fromStr_undefined hzero hne hv _ (hret (fun _ => 0) 0)
  · intro hfit makeMe m_time
    have hv : verdict true (directives defaultFormat).1 (some t.text) .zero = _ :=
      verdict_accepted hread.allMatch hfit
    rw [hread.stored_eq, ← hcomplete] at hv
    exact fromStr_accepted hzero hne hv

/-- **What a time is parsed from.** The loop ends inside its texts, and the time changes only where the
data has the whole format, exactly if nothing is parsed (empty data, or a conversion that the data does not
have before it has been left) or everything is there and every number fits. A text of the default format
gives its numbers exactly if they fit. -/
theorem parsed_iff (hzero : 0 ∉ f) :
    (Right f d ↔ d = [] ∨ Stops (directives f).1 (some d) ∨
      ((directives f).2 = true ∧ AllMatch (directives f).1 d ∧ AllFit (directives f).1 d)) ∧
    ∀ t : TimeText, (∀ (makeMe : Tm → Int) (m_time : Int),
      Returns (fromStr makeMe m_time t.text (terminated defaultFormat)) (makeMe t.tm)) ↔ t.Fits :=
  ⟨right_iff hzero, fromStr_default_iff⟩

/-- Data of two hyphens, in the default format. -/
theorem parsed_iff_hyphens :
    (Right defaultFormat [charByte '-', charByte '-'] ↔ [charByte '-', charByte '-'] = [] ∨
      Stops (directives defaultFormat).1 (some [charByte '-', charByte '-']) ∨
      ((directives defaultFormat).2 = true ∧
        AllMatch (directives defaultFormat).1 [charByte '-', charByte '-'] ∧
        AllFit (directives defaultFormat).1 [charByte '-', charByte '-'])) ∧
    ∀ t : TimeText, (∀ (makeMe : Tm → Int) (m_time : Int),
      Returns (fromStr makeMe m_time t.text (terminated defaultFormat)) (makeMe t.tm)) ↔ t.Fits :=
  parsed_iff (by decide)

/-- Data of one character, and a format with a conversion behind two. -/
theorem data_left :
    ¬ ∀ f d : List Byte, 0 ∉ f → 0 ∉ d → Right f d := by
  intro hall
  have hright := hall [charByte 'a', charByte 'b', formatMark, charByte 'Y'] [charByte 'x'] (by decide)
    (by decide)
  rw [right_iff (by decide), directives_char (by decide) rfl (by decide),
    directives_char (by decide) rfl (by decide), directives_field rfl (by decide)] at hright
  rcases hright with h | hstops | ⟨-, hmatch, -⟩
  · cases h
  · exact hstops
  · rcases hmatch.1 with h | h
    · exact absurd h (by decide)
    · exact absurd h.1 (by decide)

end Time
end Huicpp
