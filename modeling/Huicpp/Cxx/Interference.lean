import Mathlib
import Huicpp.Cxx.TransitionSystem

/-!
# Cxx.Interference

Programs that call something they share, and run side by side.

* `Calls q a β`: a program that makes calls `q`, goes on with the answers `a` and returns a `β`.
* `Safe`: what a program does and returns, where before each call the others may have changed what
  is shared by `rely`. The conditions on its calls speak of the calls that it made before.
* `RelyGuarantee.safe`: programs that are `Safe` alone, and whose own calls are what the others rely
  on, are `Safe` in every run of any number of them.
-/

namespace Cxx

inductive Calls (q a β : Type) where
  | ret (b : β)
  | call (c : q) (next : a → Calls q a β)

namespace Calls

variable {q a β γ : Type}

def bind (p : Calls q a β) (f : β → Calls q a γ) : Calls q a γ :=
  match p with
  | .ret b => f b
  | .call c next => .call c fun x => (next x).bind f

instance : Monad (Calls q a) where
  pure := .ret
  bind := bind

/-- One call. -/
def lift (c : q) : Calls q a a := .call c .ret

@[simp] theorem pure_eq (b : β) : (pure b : Calls q a β) = .ret b := rfl

@[simp] theorem ret_bind (b : β) (f : β → Calls q a γ) : (.ret b : Calls q a β) >>= f = f b := rfl

@[simp] theorem lift_bind (c : q) (f : a → Calls q a β) : lift c >>= f = .call c f := rfl

@[simp] theorem call_bind (c : q) (next : a → Calls q a β) (f : β → Calls q a γ) :
    .call c next >>= f = .call c fun x => next x >>= f := rfl

/-- The program makes at most so many calls. -/
def AtMost : Calls q a β → Nat → Prop
  | .ret _, _ => True
  | .call _ _, 0 => False
  | .call _ next, n + 1 => ∀ x, (next x).AtMost n

theorem AtMost.call {c : q} {next : a → Calls q a β} {n : Nat} (h : ∀ x, (next x).AtMost n) :
    (Calls.call c next).AtMost (n + 1) := h

theorem AtMost.mono {p : Calls q a β} {m n : Nat} (hp : p.AtMost m) (hmn : m ≤ n) :
    p.AtMost n := by
  induction p generalizing m n with
  | ret b => exact trivial
  | call c next ih =>
    cases m with
    | zero => exact hp.elim
    | succ m =>
      cases n with
      | zero => exact absurd hmn (Nat.not_succ_le_zero m)
      | succ n => exact fun x => ih x (hp x) (Nat.le_of_succ_le_succ hmn)

theorem AtMost.bind {p : Calls q a β} {f : β → Calls q a γ} {m n : Nat} (hp : p.AtMost m)
    (hf : ∀ b, (f b).AtMost n) : (p >>= f).AtMost (n + m) := by
  induction p generalizing m with
  | ret b => exact (hf b).mono (Nat.le_add_right n m)
  | call c next ih =>
    cases m with
    | zero => exact hp.elim
    | succ m => exact fun x => ih x (hp x)

end Calls

/-- A call that was made, with what was shared before and after it. -/
structure Made (κ q a : Type) where
  before : κ
  call : q
  answer : a
  after : κ

section Safe

variable {κ q a β γ : Type} (answers : κ → q → a → κ → Prop) (rely : κ → κ → Prop)
  (care ok : List (Made κ q a) → Made κ q a → Prop)

/-- From `h`, the calls made so far, and `k`, what was shared then, every call that meets `care` is
`ok`, and what is returned meets `post`. -/
def Safe (post : β → List (Made κ q a) → κ → Prop) :
    Calls q a β → List (Made κ q a) → κ → Prop
  | .ret b, h, k => ∀ k', rely k k' → post b h k'
  | .call c next, h, k => ∀ k₁ x k₂, rely k k₁ → answers k₁ c x k₂ → care h ⟨k₁, c, x, k₂⟩ →
      ok h ⟨k₁, c, x, k₂⟩ ∧ Safe post (next x) (h ++ [⟨k₁, c, x, k₂⟩]) k₂

namespace Safe

variable {answers rely care ok} {post mid : β → List (Made κ q a) → κ → Prop}
  {p : Calls q a β} {h : List (Made κ q a)} {k k' : κ}

theorem interfere (htrans : ∀ k₁ k₂ k₃, rely k₁ k₂ → rely k₂ k₃ → rely k₁ k₃)
    (hs : Safe answers rely care ok post p h k) (hk : rely k k') :
    Safe answers rely care ok post p h k' := by
  cases p with
  | ret b => exact fun k₁ h₁ => hs k₁ (htrans _ _ _ hk h₁)
  | call c next => exact fun k₁ x k₂ h₁ => hs k₁ x k₂ (htrans _ _ _ hk h₁)

theorem bind (hrefl : ∀ k, rely k k) {post : γ → List (Made κ q a) → κ → Prop}
    {f : β → Calls q a γ} (hs : Safe answers rely care ok mid p h k)
    (hf : ∀ b h k, mid b h k → Safe answers rely care ok post (f b) h k) :
    Safe answers rely care ok post (p >>= f) h k := by
  induction p generalizing h k with
  | ret b => exact hf b h k (hs k (hrefl k))
  | call c next ih =>
    intro k₁ x k₂ h₁ hx hc
    obtain ⟨hok, hnext⟩ := hs k₁ x k₂ h₁ hx hc
    exact ⟨hok, ih x hnext⟩

end Safe

end Safe

/-! ## Running side by side -/

/-- A client has a task, and runs the program of the task. -/
structure Client (τ κ q a β : Type) where
  task : τ
  program : Calls q a β
  history : List (Made κ q a)

structure SharedBy (ι τ κ q a β : Type) where
  shared : κ
  clients : ι → Option (Client τ κ q a β)

namespace SharedBy

variable {ι τ κ q a β : Type}

inductive Event (ι τ κ q a : Type) where
  | start (i : ι) (t : τ)
  | call (i : ι) (made : Made κ q a)
  | world

variable [DecidableEq ι]

/-- A client can be started anew at any time; then the program it was in is lost. -/
inductive Step (main : τ → Calls q a β) (answers : κ → q → a → κ → Prop) (world : κ → κ → Prop) :
    SharedBy ι τ κ q a β → Event ι τ κ q a → SharedBy ι τ κ q a β → Prop where
  | start (s : SharedBy ι τ κ q a β) (i : ι) (t : τ) :
      Step main answers world s (.start i t)
        { s with clients := Function.update s.clients i (some ⟨t, main t, []⟩) }
  | call (s : SharedBy ι τ κ q a β) (i : ι) (t : τ) (c : q) (next : a → Calls q a β)
      (h : List (Made κ q a)) (x : a) (k : κ) :
      s.clients i = some ⟨t, .call c next, h⟩ → answers s.shared c x k →
      Step main answers world s (.call i ⟨s.shared, c, x, k⟩)
        ⟨k, Function.update s.clients i (some ⟨t, next x, h ++ [⟨s.shared, c, x, k⟩]⟩)⟩
  | world (s : SharedBy ι τ κ q a β) (k : κ) :
      world s.shared k → Step main answers world s .world { s with shared := k }

/-- The runs that begin before any client was started. -/
def system (ι : Type) [DecidableEq ι] (main : τ → Calls q a β) (answers : κ → q → a → κ → Prop)
    (world : κ → κ → Prop) : TransitionSystem (SharedBy ι τ κ q a β) (Event ι τ κ q a) where
  init s := ∀ i, s.clients i = none
  step := Step main answers world

/-- The calls meet a condition that depends on the task. -/
def Careful (care : τ → List (Made κ q a) → Made κ q a → Prop) (s : SharedBy ι τ κ q a β)
    (e : Event ι τ κ q a) (_ : SharedBy ι τ κ q a β) : Prop :=
  match e with
  | .call i made => ∀ p, s.clients i = some p → care p.task p.history made
  | _ => True

section

variable {main : τ → Calls q a β} {answers : κ → q → a → κ → Prop} {world rely : κ → κ → Prop}
  {care ok : τ → List (Made κ q a) → Made κ q a → Prop}
  {post : τ → β → List (Made κ q a) → κ → Prop} {s : SharedBy ι τ κ q a β}

/-- Each task is `Safe` alone, and nobody does what the others do not rely on. -/
structure RelyGuarantee (main : τ → Calls q a β) (answers : κ → q → a → κ → Prop)
    (world rely : κ → κ → Prop) (care ok : τ → List (Made κ q a) → Made κ q a → Prop)
    (post : τ → β → List (Made κ q a) → κ → Prop) : Prop where
  refl : ∀ k, rely k k
  trans : ∀ k₁ k₂ k₃, rely k₁ k₂ → rely k₂ k₃ → rely k₁ k₃
  world : ∀ k k', world k k' → rely k k'
  made : ∀ t h made, ok t h made → rely made.before made.after
  main : ∀ t k, Safe answers rely (care t) (ok t) (post t) (main t) [] k

namespace RelyGuarantee

theorem safe (rg : RelyGuarantee main answers world rely care ok post)
    (hs : ((system ι main answers world).restrict (Careful care)).Reachable s) {i : ι}
    {p : Client τ κ q a β} (hp : s.clients i = some p) :
    Safe answers rely (care p.task) (ok p.task) (post p.task) p.program p.history s.shared := by
  refine hs.invariant (fun s => ∀ i p, s.clients i = some p → Safe answers rely (care p.task)
    (ok p.task) (post p.task) p.program p.history s.shared) ?_ ?_ i p hp
  · intro s hinit i p hp
    rw [hinit i] at hp
    cases hp
  · rintro s e s' ih ⟨hstep, hcare⟩ j p hp
    cases hstep with
    | start i t =>
      rcases update_apply_eq_iff.mp hp with ⟨-, hp⟩ | ⟨-, hp⟩
      · cases hp
        exact rg.main t _
      · exact ih j p hp
    | call i t c next h x k hi hx =>
      obtain ⟨hmade, hnext⟩ := ih i _ hi s.shared x k (rg.refl _) hx (hcare _ hi)
      rcases update_apply_eq_iff.mp hp with ⟨-, hp⟩ | ⟨-, hp⟩
      · cases hp
        exact hnext
      · -- for the others, this call is interference
        exact (ih j p hp).interfere rg.trans (rg.made t h _ hmade)
    | world k hk => exact (ih j p hp).interfere rg.trans (rg.world _ _ hk)

theorem made_ok (rg : RelyGuarantee main answers world rely care ok post)
    (hs : ((system ι main answers world).restrict (Careful care)).Reachable s) {i : ι} {t : τ}
    {c : q} {next : a → Calls q a β} {h : List (Made κ q a)} {x : a} {k : κ}
    (hi : s.clients i = some ⟨t, .call c next, h⟩) (hx : answers s.shared c x k)
    (hcare : care t h ⟨s.shared, c, x, k⟩) : ok t h ⟨s.shared, c, x, k⟩ :=
  (rg.safe hs hi s.shared x k (rg.refl _) hx hcare).1

theorem returned (rg : RelyGuarantee main answers world rely care ok post)
    (hs : ((system ι main answers world).restrict (Careful care)).Reachable s) {i : ι} {t : τ}
    {b : β} {h : List (Made κ q a)} (hi : s.clients i = some ⟨t, .ret b, h⟩) :
    post t b h s.shared :=
  rg.safe hs hi s.shared (rg.refl _)

end RelyGuarantee

/-- Programs that make so many calls at most have no more left than they have not made. -/
theorem atMost_of_reachable {n : Nat} (hmain : ∀ t, (main t).AtMost n)
    (hs : (system ι main answers world).Reachable s) {i : ι} {p : Client τ κ q a β}
    (hp : s.clients i = some p) :
    ∃ m, p.history.length + m = n ∧ p.program.AtMost m := by
  refine hs.invariant (fun s => ∀ i p, s.clients i = some p →
    ∃ m, p.history.length + m = n ∧ p.program.AtMost m) ?_ ?_ i p hp
  · intro s hinit i p hp
    rw [hinit i] at hp
    cases hp
  · intro s e s' ih hstep j p hp
    cases hstep with
    | start i t =>
      rcases update_apply_eq_iff.mp hp with ⟨-, hp⟩ | ⟨-, hp⟩
      · cases hp
        exact ⟨n, Nat.zero_add n, hmain t⟩
      · exact ih j p hp
    | call i t c next h x k hi hx =>
      rcases update_apply_eq_iff.mp hp with ⟨-, hp⟩ | ⟨-, hp⟩
      · cases hp
        obtain ⟨m, hlen, hleft⟩ := ih i _ hi
        cases m with
        | zero => exact hleft.elim
        | succ m =>
          refine ⟨m, ?_, hleft x⟩
          rw [List.length_append, List.length_singleton, Nat.add_assoc, Nat.add_comm 1 m]
          exact hlen
      · exact ih j p hp
    | world k hk => exact ih j p hp

end

end SharedBy
end Cxx
