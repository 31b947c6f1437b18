import Mathlib
import Huicpp.Cxx.Rewrite

/-!
# Cxx.RewriteRuns

When replacing again and again ends like one pass, the pass has settled (`settles_of_rewrites`). A
replacement that is made further left than the pass is cannot be made good, for one of three reasons:

* `goesAlong_of_not_start`: `dst` is not the start of `key`. Where they part, a replacement changes
  one element for another, so that every replacement goes down in the order of the texts.
* `goesAlong_of_not_end`: `dst` is the start of `key`, but not its end. Then replacements go from left
  to right, and where the ends part each leaves a mark, from which the last one can be told.
* `goesAlong_of_borders`: what is start and end of `key` is the start of `dst`. Then the pass leaves
  the `key` further left in its result.
-/

namespace Cxx

variable {α : Type} {key dst s t r done p rest a c : List α}

/-- What ends like the pass begins like it, with the `key` behind `done`. -/
def GoesAlong [DecidableEq α] (key dst : List α) : Prop :=
  ∀ done rest a c, done ++ key ++ rest = a ++ key ++ c → FirstAt key (a ++ key ++ c) a.length →
    Rewrites key dst (a ++ dst ++ c) (done ++ dst ++ replaceAll key dst rest) → a = done ∧ c = rest

theorem FirstAt.length_le (h : FirstAt key (a ++ key ++ c) a.length)
    (hs : done ++ key ++ rest = a ++ key ++ c) : a.length ≤ done.length := by
  by_contra hlt
  exact h.2 _ (not_le.mp hlt) (hs ▸ occursAt_length key done rest)

theorem same_place (hs : done ++ key ++ rest = a ++ key ++ c) (hlen : done.length = a.length) :
    a = done ∧ c = rest := by
  rw [List.append_assoc, List.append_assoc] at hs
  obtain ⟨rfl, htail⟩ := List.append_inj hs hlen
  exact ⟨rfl, (List.append_cancel_left htail).symm⟩

theorem settles_of_goesAlong [DecidableEq α] (hkey : key ≠ []) (hgoes : GoesAlong key dst)
    {ps : List (List α)} (hsplits : Splits key t ps)
    (h : Rewrites key dst (done ++ t) (done ++ replaceAll key dst t)) : Settles key dst done t := by
  induction hsplits generalizing done with
  | last ht =>
    rw [replaceAll_of_none ht] at h
    exact .last ht h.not_occurs
  | @cut p rest ps hfirst _ ih =>
    have hresult : done ++ replaceAll key dst (p ++ key ++ rest) =
        (done ++ p) ++ dst ++ replaceAll key dst rest := by
      rw [replaceAll_of_firstAt hkey hfirst]
      simp only [List.append_assoc]
    rw [hresult] at h
    generalize hwhole : done ++ (p ++ key ++ rest) = s at h
    have hs : (done ++ p) ++ key ++ rest = s := by
      rw [← hwhole]
      simp only [List.append_assoc]
    cases h with
    | done hnone => exact absurd ⟨done ++ p, rest, hs⟩ hnone
    | @step a c r hleft hrun =>
      obtain ⟨rfl, rfl⟩ := hgoes (done ++ p) rest a c hs hleft hrun
      refine .cut hfirst (fun a x hx hfirst' => ⟨[], List.nil_suffix, ?_⟩) (ih hrun)
      have hlen := hleft.unique hfirst'
      have hlens := congrArg List.length hx
      rw [hlen, List.length_append] at hlens
      have hnil : x = [] := List.eq_nil_of_length_eq_zero (by omega)
      rw [hnil, List.nil_append, List.append_nil]

/-! ## Where the keys part -/

/-- The lists part at an element that is `d` in one and `k` in the other. -/
def Below (d k : α) (u v : List α) : Prop := ∃ c u' v', u = c ++ d :: u' ∧ v = c ++ k :: v'

section Order

variable {d k : α} {u v w : List α}

theorem Below.irrefl (hne : d ≠ k) : ¬ Below d k u u := by
  rintro ⟨c, u', v', rfl, hv⟩
  exact hne (List.cons_eq_cons.mp (List.append_cancel_left hv)).1

theorem Below.trans (hne : d ≠ k) (huv : Below d k u v) (hvw : Below d k v w) : Below d k u w := by
  obtain ⟨c, u', v', rfl, rfl⟩ := huv
  obtain ⟨c', v'', w', hv, rfl⟩ := hvw
  rcases List.append_eq_append_iff.mp hv with ⟨x, rfl, hx⟩ | ⟨x, rfl, hx⟩
  · cases x with
    | nil => exact absurd (List.cons_eq_cons.mp hx).1.symm hne
    | cons b x =>
      obtain ⟨rfl, -⟩ := List.cons_eq_cons.mp hx
      exact ⟨c, u', x ++ k :: w', rfl, by simp⟩
  · cases x with
    | nil => exact absurd (List.cons_eq_cons.mp hx).1 hne
    | cons b x =>
      obtain ⟨rfl, -⟩ := List.cons_eq_cons.mp hx
      exact ⟨c', x ++ d :: u', w', by simp, rfl⟩

/-- Every replacement goes down. -/
theorem Rewrites.descends (hne : d ≠ k) {l key' dst' : List α}
    (h : Rewrites (l ++ k :: key') (l ++ d :: dst') s r) : r = s ∨ Below d k r s := by
  induction h with
  | done _ => exact .inl rfl
  | @step a c r _ _ ih =>
    have hstep : Below d k (a ++ (l ++ d :: dst') ++ c) (a ++ (l ++ k :: key') ++ c) :=
      ⟨a ++ l, dst' ++ c, key' ++ c, by simp, by simp⟩
    rcases ih with rfl | hbelow
    · exact .inr hstep
    · exact .inr (hbelow.trans hne hstep)

theorem exists_parting (hdst : ¬ dst <+: key) (hkey : ¬ key <+: dst) :
    ∃ l k d key' dst', key = l ++ k :: key' ∧ dst = l ++ d :: dst' ∧ d ≠ k := by
  induction key generalizing dst with
  | nil => exact absurd (List.nil_prefix) hkey
  | cons k key ih =>
    cases dst with
    | nil => exact absurd (List.nil_prefix) hdst
    | cons d dst =>
      by_cases heq : d = k
      · subst heq
        rw [List.cons_prefix_cons, and_iff_right rfl] at hdst hkey
        obtain ⟨l, k', d', key', dst', rfl, rfl, hne⟩ := ih hdst hkey
        exact ⟨d :: l, k', d', key', dst', rfl, rfl, hne⟩
      · exact ⟨[], k, d, key, dst, rfl, rfl, heq⟩

end Order

theorem goesAlong_of_not_start [DecidableEq α] (hdst : ¬ dst <+: key) : GoesAlong key dst := by
  intro done rest a c hs hleft h
  have hkey : ¬ key <+: dst := by
    rintro ⟨v, rfl⟩
    refine h.not_occurs ⟨done, v ++ replaceAll key (key ++ v) rest, ?_⟩
    simp only [List.append_assoc]
  rcases Nat.lt_or_ge a.length done.length with hlt | hge
  · exfalso
    obtain ⟨l, k, d, key', dst', rfl, rfl, hne⟩ := exists_parting hdst hkey
    generalize replaceAll (l ++ k :: key') (l ++ d :: dst') rest = t at h
    have hfront : a ++ l ++ [k] <+: a ++ (l ++ k :: key') ++ c := ⟨key' ++ c, by simp⟩
    have hback : done ++ l <+: a ++ (l ++ k :: key') ++ c := by
      rw [← hs]
      exact ⟨k :: key' ++ rest, by simp⟩
    have hlen : (a ++ l ++ [k]).length ≤ (done ++ l).length := by
      simp only [List.length_append, List.length_singleton]
      omega
    obtain ⟨v, hv⟩ := List.prefix_of_prefix_length_le hfront hback hlen
    have hup : Below d k (a ++ (l ++ d :: dst') ++ c) (done ++ (l ++ d :: dst') ++ t) := by
      refine ⟨a ++ l, dst' ++ c, v ++ d :: dst' ++ t, by simp, ?_⟩
      rw [← List.append_assoc, ← hv]
      simp only [List.append_assoc, List.cons_append, List.nil_append]
    rcases h.descends hne with heq | hbelow
    · rw [heq] at hup
      exact hup.irrefl hne
    · exact (hbelow.trans hne hup).irrefl hne
  · exact same_place hs (Nat.le_antisymm hge (hleft.length_le hs))

/-! ## Borders -/

theorem goesAlong_of_borders [DecidableEq α]
    (hborders : ∀ u, u <+: key → u <:+ key → u ≠ key → u <+: dst) : GoesAlong key dst := by
  intro done rest a c hs hleft h
  have hfront : a <+: done := by
    have ha : a <+: a ++ key ++ c := by
      rw [List.append_assoc]
      exact List.prefix_append a _
    have hdone : done <+: a ++ key ++ c := by
      rw [← hs, List.append_assoc]
      exact List.prefix_append done _
    exact List.prefix_of_prefix_length_le ha hdone (hleft.length_le hs)
  obtain ⟨x, rfl⟩ := hfront
  by_cases hx : x = []
  · subst hx
    exact same_place hs (by rw [List.append_nil])
  · exfalso
    have htail : x ++ (key ++ rest) = key ++ c := by
      simp only [List.append_assoc] at hs
      exact List.append_cancel_left hs
    refine h.not_occurs ?_
    rcases List.append_eq_append_iff.mp htail with ⟨u, hu, hbehind⟩ | ⟨v, rfl, _⟩
    · -- the pass takes `u` away with the `key` it replaces, and `dst` brings it back
      have hshort : u.length ≤ key.length := by
        rw [hu, List.length_append]
        omega
      have hstart : u <+: key := by
        refine List.prefix_of_prefix_length_le (List.prefix_append u c) ?_ hshort
        rw [← hbehind]
        exact List.prefix_append key rest
      have hne : u ≠ key := by
        intro heq
        rw [← heq] at hu
        exact hx (List.self_eq_append_left.mp hu)
      obtain ⟨w, rfl⟩ := hborders u hstart ⟨x, hu.symm⟩ hne
      generalize replaceAll key (u ++ w) rest = t
      refine ⟨a, w ++ t, ?_⟩
      rw [hu]
      simp only [List.append_assoc]
    · exact ⟨a, v ++ dst ++ replaceAll key dst rest, by simp only [List.append_assoc]⟩

/-! ## Marks from right to left -/

/-- Replacements from `s` to `r`, with the lengths of what follows each `key`. -/
inductive Run (key dst : List α) : List α → List Nat → List α → Prop where
  | done {s : List α} : Run key dst s [] s
  | step {a c r : List α} {ns : List Nat} : Run key dst (a ++ dst ++ c) ns r →
      Run key dst (a ++ key ++ c) (c.length :: ns) r

/-- From left to right -/
def Downward (ns : List Nat) : Prop := ns.Pairwise (· > ·)

variable {ns ms : List Nat} {m n : Nat}

theorem Run.eq_of_nil (h : Run key dst s [] r) : s = r := by
  cases h with
  | done => rfl

theorem Run.last (h : Run key dst s (ns ++ [n]) r) :
    ∃ a c, c.length = n ∧ r = a ++ dst ++ c ∧ Run key dst s ns (a ++ key ++ c) := by
  induction ns generalizing s with
  | nil =>
    cases h with
    | @step a c _ _ hrest => exact ⟨a, c, rfl, hrest.eq_of_nil.symm, .done⟩
  | cons n' ns ih =>
    cases h with
    | @step a' c' _ _ hrest =>
      obtain ⟨a, c, hlen, hr, hrun⟩ := ih hrest
      exact ⟨a, c, hlen, hr, .step hrun⟩

section Marks

variable {l key' dst' : List α} {d k : α}

/-- The mark that the last replacement leaves: further right nothing has changed. -/
theorem Run.mark (h : Run (key' ++ k :: l) (dst' ++ d :: l) s (ns ++ [n]) r)
    (hns : Downward (ns ++ [n])) :
    ∃ s' r' t, s = s' ++ k :: t ∧ r = r' ++ d :: t ∧ t.length = l.length + n := by
  induction ns generalizing s with
  | nil =>
    cases h with
    | @step a c _ _ hrest =>
      refine ⟨a ++ key', a ++ dst', l ++ c, by simp, ?_, List.length_append⟩
      rw [← hrest.eq_of_nil]
      simp
  | cons n' ns ih =>
    cases h with
    | @step a c _ _ hrest =>
      obtain ⟨hlater, hns⟩ := List.pairwise_cons.mp hns
      obtain ⟨s', r', t, hs, hr, ht⟩ := ih hrest hns
      have hless : n < c.length := hlater n (List.mem_append_right _ (List.mem_singleton_self n))
      have hmine : l ++ c <:+ a ++ (dst' ++ d :: l) ++ c := ⟨a ++ dst' ++ [d], by simp⟩
      have hmark : k :: t <:+ a ++ (dst' ++ d :: l) ++ c := ⟨s', hs.symm⟩
      have hlen : (k :: t).length ≤ (l ++ c).length := by
        rw [List.length_cons, List.length_append]
        omega
      obtain ⟨y, hy⟩ := List.suffix_of_suffix_length_le hmark hmine hlen
      refine ⟨a ++ key' ++ k :: y, r', t, ?_, hr, ht⟩
      simp only [List.append_assoc, List.cons_append, hy]

theorem mark_unique (hne : d ≠ k) {s₁ s₂ r₁ r₂ t₁ t₂ : List α} (hs : s₁ ++ k :: t₁ = s₂ ++ k :: t₂)
    (hr : r₁ ++ d :: t₁ = r₂ ++ d :: t₂) : t₂.length ≤ t₁.length := by
  by_contra hlt
  have hk : k :: t₁ <:+ t₂ := by
    refine List.suffix_of_suffix_length_le ⟨s₁, hs⟩ ⟨s₂ ++ [k], by simp⟩ ?_
    rw [List.length_cons]
    omega
  have hd : d :: t₁ <:+ t₂ := by
    refine List.suffix_of_suffix_length_le ⟨r₁, hr⟩ ⟨r₂ ++ [d], by simp⟩ ?_
    rw [List.length_cons]
    omega
  have hsame : k :: t₁ = d :: t₁ := (List.suffix_of_suffix_length_le hk hd (by simp)).eq_of_length rfl
  exact hne (List.cons_eq_cons.mp hsame).1.symm

/-- From the text and the result all replacements can be told, the last one first. -/
theorem Run.unique (hne : d ≠ k) (h : Run (key' ++ k :: l) (dst' ++ d :: l) s ns r)
    (h' : Run (key' ++ k :: l) (dst' ++ d :: l) s ms r) (hns : Downward ns) (hms : Downward ms) :
    ns = ms := by
  induction ns using List.reverseRecOn generalizing ms r with
  | nil =>
    rcases List.eq_nil_or_concat ms with rfl | ⟨ms, m, rfl⟩
    · rfl
    · rw [List.concat_eq_append] at h' hms
      obtain ⟨s', r', t, hs, hr, _⟩ := h'.mark hms
      rw [h.eq_of_nil, hr] at hs
      exact absurd (List.cons_eq_cons.mp (List.append_inj_right' hs rfl)).1 hne
  | append_singleton ns n ih =>
    rcases List.eq_nil_or_concat ms with rfl | ⟨ms, m, rfl⟩
    · obtain ⟨s', r', t, hs, hr, _⟩ := h.mark hns
      rw [h'.eq_of_nil, hr] at hs
      exact absurd (List.cons_eq_cons.mp (List.append_inj_right' hs rfl)).1 hne
    · rw [List.concat_eq_append] at h' hms ⊢
      obtain ⟨s₁, r₁, t₁, hs₁, hr₁, ht₁⟩ := h.mark hns
      obtain ⟨s₂, r₂, t₂, hs₂, hr₂, ht₂⟩ := h'.mark hms
      have hle := mark_unique hne (hs₁.symm.trans hs₂) (hr₁.symm.trans hr₂)
      have hge := mark_unique hne (hs₂.symm.trans hs₁) (hr₂.symm.trans hr₁)
      obtain rfl : n = m := by omega
      obtain ⟨a, c, hc, hr, hrun⟩ := h.last
      obtain ⟨a', c', hc', hr', hrun'⟩ := h'.last
      obtain ⟨hfront, rfl⟩ := List.append_inj' (hr.symm.trans hr') (hc.trans hc'.symm)
      obtain rfl := List.append_cancel_right hfront
      rw [ih hrun hrun' (List.pairwise_append.mp hns).1 (List.pairwise_append.mp hms).1]

end Marks

/-! ## Runs from left to right -/

section Shrinking

variable (hstart : dst <+: key) (hshorter : dst.length < key.length)

include hstart hshorter

theorem FirstAt.clean (h : FirstAt key (a ++ key ++ c) a.length) : ¬ key <:+: a ++ dst := by
  intro hoccurs
  obtain ⟨i, hi⟩ := infix_iff_occursAt.mp hoccurs
  have hlen := hi.length_le
  rw [List.length_append] at hlen
  obtain ⟨e, rfl⟩ := hstart
  refine h.2 i (by omega) ?_
  have hwhole := hi.append_right (e ++ c)
  simpa only [List.append_assoc] using hwhole

/-- The leftmost `key` again and again goes from left to right. -/
theorem Rewrites.exists_run (h : Rewrites key dst s r) : ∃ ns, Run key dst s ns r ∧ Downward ns ∧
    ∀ b c, s = b ++ c → ¬ key <:+: b → ∀ n ∈ ns, n < c.length := by
  induction h with
  | done _ => exact ⟨[], .done, .nil, fun _ _ _ _ n hn => absurd hn List.not_mem_nil⟩
  | @step a c r hfirst _ ih =>
    obtain ⟨ns, hrun, hdown, hbound⟩ := ih
    have hless := hbound (a ++ dst) c rfl (hfirst.clean hstart hshorter)
    refine ⟨c.length :: ns, .step hrun, List.pairwise_cons.mpr ⟨hless, hdown⟩, ?_⟩
    intro b c' hs hb
    have hc : c.length < c'.length := by
      by_contra hle
      have hlens := congrArg List.length hs
      have hle' : (a ++ key).length ≤ b.length := by
        rw [@List.length_append _ (a ++ key), @List.length_append _ b] at hlens
        omega
      have hpre : a ++ key <+: b := by
        refine List.prefix_of_prefix_length_le (List.prefix_append _ c) ?_ hle'
        rw [hs]
        exact List.prefix_append b c'
      exact hb ((List.suffix_append a key).isInfix.trans hpre.isInfix)
    intro n hn
    rcases List.mem_cons.mp hn with rfl | hn
    · exact hc
    · exact (hless n hn).trans hc

end Shrinking

theorem exists_pass [DecidableEq α] (hkey : key ≠ []) {ps : List (List α)} (hsplits : Splits key t ps)
    (dst done : List α) : ∃ ns, Run key dst (done ++ t) ns (done ++ replaceAll key dst t) ∧
      Downward ns ∧ ∀ n ∈ ns, n < t.length := by
  induction hsplits generalizing done with
  | last ht =>
    rw [replaceAll_of_none ht]
    exact ⟨[], .done, .nil, fun n hn => absurd hn List.not_mem_nil⟩
  | @cut p rest ps hfirst _ ih =>
    obtain ⟨ns, hrun, hdown, hless⟩ := ih (done ++ p ++ dst)
    have hpos : 0 < key.length := List.length_pos_iff.mpr hkey
    refine ⟨rest.length :: ns, ?_, List.pairwise_cons.mpr ⟨hless, hdown⟩, ?_⟩
    · have hstep := @Run.step _ key _ _ _ _ _ hrun
      rw [replaceAll_of_firstAt hkey hfirst]
      simpa only [List.append_assoc] using hstep
    · intro n hn
      simp only [List.length_append]
      rcases List.mem_cons.mp hn with rfl | hn
      · omega
      · have hn := hless n hn
        omega

theorem goesAlong_of_not_end [DecidableEq α] (hstart : dst <+: key) (hend : ¬ dst <:+ key) :
    GoesAlong key dst := by
  have hne : dst ≠ key := by
    rintro rfl
    exact hend (List.suffix_refl dst)
  have hshorter : dst.length < key.length :=
    lt_of_le_of_ne hstart.length_le fun hlen => hne (hstart.eq_of_length hlen)
  have hkey : key ≠ [] := List.ne_nil_of_length_pos (Nat.zero_lt_of_lt hshorter)
  intro done rest a c hs hleft h
  obtain ⟨ps, hps⟩ := Splits.exists_pieces hkey rest
  obtain ⟨ns, hrun, hdown, hbound⟩ := h.exists_run hstart hshorter
  obtain ⟨ms, hpass, hdown', hless⟩ := exists_pass hkey hps dst (done ++ dst)
  have hns : Downward (c.length :: ns) :=
    List.pairwise_cons.mpr ⟨hbound (a ++ dst) c rfl (hleft.clean hstart hshorter), hdown⟩
  have hms : Downward (rest.length :: ms) := List.pairwise_cons.mpr ⟨hless, hdown'⟩
  have hmine := @Run.step _ key _ _ _ _ _ hrun
  have hother := @Run.step _ key _ _ _ _ _ hpass
  rw [hs] at hother
  have hreverse : ¬ dst.reverse <+: key.reverse := by
    rw [List.reverse_prefix]
    exact hend
  have hlonger : ¬ key.reverse <+: dst.reverse := by
    intro hpre
    have hlen := hpre.length_le
    rw [List.length_reverse, List.length_reverse] at hlen
    omega
  obtain ⟨l, k, d, key', dst', hk, hd, hdiffer⟩ := exists_parting hreverse hlonger
  have hkey' : key = key'.reverse ++ k :: l.reverse := by
    rw [← List.reverse_reverse key, hk]
    simp
  have hdst' : dst = dst'.reverse ++ d :: l.reverse := by
    rw [← List.reverse_reverse dst, hd]
    simp
  generalize done ++ dst ++ replaceAll key dst rest = r at hmine hother
  rw [hkey', hdst'] at hmine hother
  have hsame := Run.unique hdiffer hmine hother hns hms
  have hlen : c.length = rest.length := (List.cons_eq_cons.mp hsame).1
  have hlens := congrArg List.length hs
  simp only [List.length_append] at hlens
  exact same_place hs (by omega)

/-! ## Together -/

/-- A pass that is made good has settled, but for a `dst` that is start and end of `key` and is not
the longest such list. -/
theorem settles_of_rewrites [DecidableEq α] (hkey : key ≠ [])
    (hborders : dst <+: key → dst <:+ key → ∀ u, u <+: key → u <:+ key → u ≠ key →
      u.length ≤ dst.length) (h : Rewrites key dst s (replaceAll key dst s)) :
    Settles key dst [] s := by
  have hgoes : GoesAlong key dst := by
    by_cases hstart : dst <+: key
    · by_cases hend : dst <:+ key
      · refine goesAlong_of_borders fun u hu hu' hne => ?_
        exact List.prefix_of_prefix_length_le hu hstart (hborders hstart hend u hu hu' hne)
      · exact goesAlong_of_not_end hstart hend
    · exact goesAlong_of_not_start hstart
  obtain ⟨ps, hps⟩ := Splits.exists_pieces hkey s
  exact settles_of_goesAlong hkey hgoes hps h

end Cxx
