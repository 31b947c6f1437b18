import Mathlib
import Huicpp.Db.Mysql

/-!
# Db.MultiExec

When `MultiExec` on MySQL is all-or-nothing. `HMysqlConnection::Execute` re-executes a statement on
a new connection when the old one is gone. That connection is in autocommit mode, and `MultiExec`
does not notice: what was pending is lost, what follows is committed statement by statement. And a
commit whose reply does not arrive is reported as an error.

* `InTransaction d p`, `InAutocommit d done`: the two situations the loop can be in.
* `execEach_transaction`, `execEach_autocommit`: what the loop makes of them.
* `multiExec_atomic_iff`: the exact condition.
-/

namespace Huicpp
namespace Db

open HMysqlConnection

namespace Attempt

/-- The statement is sent again, on a new connection. -/
def SentAgain (a : Attempt) : Prop := a.first ≠ .done ∧ a.ping = .dead ∧ a.reconnect = .connected

/-- It is executed there, and the caller sees a success. -/
def Silent (a : Attempt) : Prop := a.SentAgain ∧ a.second = .done

/-- It is executed there, whatever the caller sees. -/
def Escapes (a : Attempt) : Prop := a.SentAgain ∧ (a.second = .done ∨ a.second = .unanswered)

/-- The caller sees a success. -/
def Succeeds (a : Attempt) : Prop := a.first = .done ∨ a.Silent

instance (a : Attempt) : Decidable a.SentAgain := inferInstanceAs (Decidable (_ ∧ _))

instance (a : Attempt) : Decidable a.Silent := inferInstanceAs (Decidable (_ ∧ _))

instance (a : Attempt) : Decidable a.Escapes := inferInstanceAs (Decidable (_ ∧ _))

instance (a : Attempt) : Decidable a.Succeeds := inferInstanceAs (Decidable (_ ∨ _))

theorem Silent.escapes {a : Attempt} (h : a.Silent) : a.Escapes := ⟨h.1, .inl h.2⟩

end Attempt

/-- Of the attempts up to the first one that does not succeed at once, none escapes from the transaction.
If all succeed at once, the reply to the commit arrives or there is no commit. -/
def Kept (commit : QueryAnswer) : List Attempt → Prop
  | [] => commit ≠ .unanswered
  | a :: later => if a.first = .done then Kept commit later else ¬ a.Escapes

/-- The same, but the very first statement may escape if everything after it succeeds and is executed
once: nothing is pending yet, and everything gets committed one by one. -/
def Atomic (commit : QueryAnswer) : List Attempt → Prop
  | [] => True
  | a :: later =>
    if a.first = .done then Kept commit later
    else a.Escapes →
      a.second = .done ∧ (∀ b ∈ later, b.Succeeds ∧ b.first ≠ .unanswered) ∧ commit = .done

/-- OK means that exactly the effects of all statements are committed, an error that none is. -/
def AllOrNothing {α : Type} (sqlss : List α) (r : HRet × MysqlDrive α) : Prop :=
  (r.1 = .ok → r.2.server.committed = sqlss) ∧ (r.1 ≠ .ok → r.2.server.committed = [])

/-- Nothing of this call has been executed yet. -/
def Untouched {α : Type} (d : MysqlDrive α) : Prop :=
  d.server.committed = [] ∧ ∀ p, d.server.session = .transaction p → p = []

/-- The statements with their positions, which tell the effects of two equal statements apart. -/
def numbered {α : Type} (sqls : List (α × Attempt)) : List ((α × Nat) × Attempt) :=
  sqls.zipIdx.map fun s => ((s.1.1, s.2), s.1.2)

/-- What successful attempts execute outside of a transaction: a statement is executed twice if only the
reply to its first execution was lost. -/
def effects {α : Type} (sqls : List (α × Attempt)) : List α :=
  sqls.flatMap fun s => if s.2.first = .unanswered then [s.1, s.1] else [s.1]

section Effects

variable {α : Type}

theorem numbered_snd (sqls : List (α × Attempt)) : (numbered sqls).map Prod.snd = sqls.map Prod.snd := by
  rw [numbered, List.map_map]
  show sqls.zipIdx.map (Prod.snd ∘ Prod.fst) = _
  rw [← List.map_map, List.zipIdx_map_fst]

theorem numbered_nodup (sqls : List (α × Attempt)) : ((numbered sqls).map Prod.fst).Nodup := by
  refine List.Nodup.of_map Prod.snd ?_
  rw [numbered, List.map_map, List.map_map]
  show (sqls.zipIdx.map Prod.snd).Nodup
  rw [List.zipIdx_map_snd]
  exact List.nodup_range'

theorem mem_of_mem_effects {sqls : List (α × Attempt)} {x : α} (h : x ∈ effects sqls) :
    x ∈ sqls.map Prod.fst := by
  obtain ⟨s, hs, hx⟩ := List.mem_flatMap.mp h
  have hx : x = s.1 := by
    split at hx
    · simpa using hx
    · exact List.mem_singleton.mp hx
  exact List.mem_map.mpr ⟨s, hs, hx.symm⟩

theorem le_length_effects (sqls : List (α × Attempt)) : sqls.length ≤ (effects sqls).length := by
  induction sqls with
  | nil => exact Nat.le_refl 0
  | cons s sqls ih =>
    rw [effects, List.flatMap_cons, ← effects, List.length_append, List.length_cons]
    split
    · simp only [List.length_cons, List.length_nil]
      omega
    · rw [List.length_singleton]
      omega

theorem effects_eq_iff (sqls : List (α × Attempt)) :
    effects sqls = sqls.map Prod.fst ↔ ∀ s ∈ sqls, s.2.first ≠ .unanswered := by
  induction sqls with
  | nil => exact iff_of_true rfl (List.forall_mem_nil _)
  | cons s sqls ih =>
    rw [effects, List.flatMap_cons, ← effects, List.forall_mem_cons, List.map_cons]
    by_cases h : s.2.first = .unanswered
    · rw [if_pos h]
      refine iff_of_false (fun heq => ?_) fun hall => hall.1 h
      have hlen := congrArg List.length heq
      have hle := le_length_effects sqls
      simp only [List.length_append, List.length_cons, List.length_nil, List.length_map] at hlen
      omega
    · rw [if_neg h, List.singleton_append, List.cons.injEq]
      simp only [ih, true_and, ne_eq, h, not_false_eq_true]

end Effects

section Execute

variable {α : Type} {d : MysqlDrive α}

/-- Effects `p` pending in the transaction, none committed. -/
def InTransaction (d : MysqlDrive α) (p : List α) : Prop :=
  d = ⟨true, true, ⟨.transaction p, []⟩⟩

/-- No transaction, effects `done` committed. -/
def InAutocommit (d : MysqlDrive α) (done : List α) : Prop :=
  d = ⟨true, true, ⟨.autocommit, done⟩⟩

theorem begin_spec (start : QueryAnswer) (h : Untouched d) :
    if d.inited ∧ d.connected ∧ start = .done then
      ∃ d', MysqlDrive.execute start .startTransaction d = (.ok, d') ∧ InTransaction d' []
    else
      ∃ err d', MysqlDrive.execute start .startTransaction d = (err, d') ∧ err ≠ .ok ∧
        d'.server.committed = [] := by
  obtain ⟨hc, hp⟩ := h
  obtain ⟨inited, connected, session, committed⟩ := d
  simp only at hc hp
  subst hc
  cases inited with
  | false => exact ⟨_, _, rfl, by decide, rfl⟩
  | true =>
    cases connected with
    | false => exact ⟨_, _, rfl, by decide, rfl⟩
    | true =>
      cases start with
      | done =>
        simp only [and_self, if_true]
        cases session with
        | closed => exact ⟨_, rfl, rfl⟩
        | autocommit => exact ⟨_, rfl, rfl⟩
        | transaction p =>
          obtain rfl := hp p rfl
          exact ⟨_, rfl, rfl⟩
      | refused => exact ⟨_, _, rfl, by decide, Server.wake_committed _⟩
      | lost => exact ⟨_, _, rfl, by decide, rfl⟩
      | unanswered =>
        refine ⟨_, _, rfl, by decide, ?_⟩
        cases session with
        | closed => rfl
        | autocommit => rfl
        | transaction p => exact hp p rfl

theorem rollBack_committed (rollback : QueryAnswer) (d : MysqlDrive α) :
    (MysqlDrive.execute rollback .rollback d).2.server.committed = d.server.committed := by
  unfold MysqlDrive.execute
  split
  · cases rollback with
    | done => exact (Server.run_rollback_committed _).trans (Server.wake_committed _)
    | refused => exact Server.wake_committed _
    | lost => rfl
    | unanswered => exact (Server.run_rollback_committed _).trans (Server.wake_committed _)
  · rfl

section Attempts

variable (x : α) {a : Attempt} {p done : List α}

theorem transaction_first (hd : InTransaction d p) (ha : a.first = .done) :
    ∃ d', execute (x, a) d = (.ok, d') ∧ InTransaction d' (p ++ [x]) := by
  obtain ⟨first, ping, reconnect, second⟩ := a
  obtain rfl := hd
  obtain rfl := ha
  exact ⟨_, rfl, rfl⟩

theorem transaction_silent (hd : InTransaction d p) (ha : a.Silent) :
    ∃ d', execute (x, a) d = (.ok, d') ∧ InAutocommit d' [x] := by
  obtain ⟨first, ping, reconnect, second⟩ := a
  obtain rfl := hd
  obtain ⟨⟨hne, rfl, rfl⟩, rfl⟩ := ha
  cases first with
  | done => exact absurd rfl hne
  | refused => exact ⟨_, rfl, rfl⟩
  | lost => exact ⟨_, rfl, rfl⟩
  | unanswered => exact ⟨_, rfl, rfl⟩

theorem transaction_fails (hd : InTransaction d p) (ha : ¬ a.Succeeds) :
    ∃ err d', execute (x, a) d = (err, d') ∧ err ≠ .ok ∧
      d'.server.committed = if a.Escapes then [x] else [] := by
  obtain ⟨first, ping, reconnect, second⟩ := a
  obtain rfl := hd
  have hfirst : first ≠ .done := fun h => ha (.inl h)
  cases ping with
  | dead =>
    cases reconnect with
    | connected =>
      have hsecond : second ≠ .done := fun h => ha (.inr ⟨⟨hfirst, rfl, rfl⟩, h⟩)
      cases second with
      | done => exact absurd rfl hsecond
      | unanswered =>
        rw [if_pos ⟨⟨hfirst, rfl, rfl⟩, .inr rfl⟩]
        cases first <;> first | exact absurd rfl hfirst | exact ⟨_, _, rfl, by decide, rfl⟩
      | refused =>
        rw [if_neg (by rintro ⟨-, h | h⟩ <;> cases h)]
        cases first <;> first | exact absurd rfl hfirst | exact ⟨_, _, rfl, by decide, rfl⟩
      | lost =>
        rw [if_neg (by rintro ⟨-, h | h⟩ <;> cases h)]
        cases first <;> first | exact absurd rfl hfirst | exact ⟨_, _, rfl, by decide, rfl⟩
    | optionRefused =>
      rw [if_neg fun h => nomatch h.1.2.2]
      cases first <;> first | exact absurd rfl hfirst | exact ⟨_, _, rfl, by decide, rfl⟩
    | refused =>
      rw [if_neg fun h => nomatch h.1.2.2]
      cases first <;> first | exact absurd rfl hfirst | exact ⟨_, _, rfl, by decide, rfl⟩
  | alive =>
    rw [if_neg fun h => nomatch h.1.2.1]
    cases first <;> first | exact absurd rfl hfirst | exact ⟨_, _, rfl, by decide, rfl⟩
  | replaced =>
    rw [if_neg fun h => nomatch h.1.2.1]
    cases first <;> first | exact absurd rfl hfirst | exact ⟨_, _, rfl, by decide, rfl⟩

theorem autocommit_succeeds (hd : InAutocommit d done) (ha : a.Succeeds) :
    ∃ d', execute (x, a) d = (.ok, d') ∧ InAutocommit d' (done ++ effects [(x, a)]) := by
  obtain ⟨first, ping, reconnect, second⟩ := a
  obtain rfl := hd
  rcases ha with rfl | ⟨⟨hne, rfl, rfl⟩, rfl⟩
  · exact ⟨_, rfl, rfl⟩
  · cases first with
    | done => exact absurd rfl hne
    | refused => exact ⟨_, rfl, rfl⟩
    | lost => exact ⟨_, rfl, rfl⟩
    | unanswered =>
      refine ⟨⟨true, true, ⟨.autocommit, done ++ [x] ++ [x]⟩⟩, rfl, ?_⟩
      rw [List.append_assoc]
      rfl

/-- What has been committed stays. -/
theorem run_prefix (s : Server α) (q : Query α) : s.committed <+: (s.run q).committed := by
  unfold Server.run
  split
  · exact List.prefix_append _ _
  · exact List.prefix_rfl
  · exact List.prefix_append _ _
  · exact List.prefix_rfl
  · exact List.prefix_rfl
  · exact List.prefix_rfl
  · exact List.prefix_rfl
  · exact List.prefix_append _ _

theorem drive_execute_prefix (ans : QueryAnswer) (q : Query α) (d : MysqlDrive α) :
    d.server.committed <+: (MysqlDrive.execute ans q d).2.server.committed := by
  have hrun : d.server.committed <+: (d.server.wake.run q).committed := by
    rw [← d.server.wake_committed]
    exact run_prefix _ q
  unfold MysqlDrive.execute
  split
  · cases ans with
    | done => exact hrun
    | refused => rw [← d.server.wake_committed]
    | lost => exact List.prefix_rfl
    | unanswered => exact hrun
  · exact List.prefix_rfl

theorem ping_committed (ans : PingAnswer) (d : MysqlDrive α) :
    (d.ping ans).2.server.committed = d.server.committed := by
  unfold MysqlDrive.ping
  split
  · cases ans <;> simp
  · rfl

theorem reconnect_committed (ans : ConnectAnswer) (d : MysqlDrive α) :
    (d.reconnect ans).2.server.committed = d.server.committed := by
  cases ans <;> simp [MysqlDrive.reconnect]

theorem execute_prefix (a : Attempt) (d : MysqlDrive α) :
    d.server.committed <+: (execute (x, a) d).2.server.committed := by
  have hfirst := drive_execute_prefix a.first (.statement x) d
  unfold execute
  split
  · exact List.prefix_rfl
  · split
    · exact List.prefix_rfl
    · dsimp only
      split
      · exact hfirst
      · have hping := ping_committed a.ping (d.execute a.first (.statement x)).2
        split
        · rw [hping]
          exact hfirst
        · have hreconnect := reconnect_committed a.reconnect
            ((d.execute a.first (.statement x)).2.ping a.ping).2
          split
          · refine hfirst.trans ?_
            rw [← hping, ← hreconnect]
            exact drive_execute_prefix _ _ _
          · rw [hreconnect, hping]
            exact hfirst

theorem autocommit_fails (hd : InAutocommit d done) (ha : ¬ a.Succeeds) :
    ∃ err d', execute (x, a) d = (err, d') ∧ err ≠ .ok ∧ done <+: d'.server.committed := by
  have hprefix := execute_prefix x a d
  refine ⟨(execute (x, a) d).1, _, rfl, ?_, ?_⟩
  · obtain ⟨first, ping, reconnect, second⟩ := a
    obtain rfl := hd
    have hfirst : first ≠ .done := fun h => ha (.inl h)
    cases ping with
    | dead =>
      cases reconnect with
      | connected =>
        have hsecond : second ≠ .done := fun h => ha (.inr ⟨⟨hfirst, rfl, rfl⟩, h⟩)
        cases first <;> first | exact absurd rfl hfirst | (cases second <;> first | exact absurd rfl hsecond | exact nofun)
      | optionRefused => cases first <;> first | exact absurd rfl hfirst | exact nofun
      | refused => cases first <;> first | exact absurd rfl hfirst | exact nofun
    | alive => cases first <;> first | exact absurd rfl hfirst | exact nofun
    | replaced => cases first <;> first | exact absurd rfl hfirst | exact nofun
  · obtain rfl := hd
    exact hprefix

end Attempts

end Execute

/-! ## The loop -/

section Loop

variable {α : Type} {d : MysqlDrive α} (start commit rollback : QueryAnswer)

theorem execEach_ok {s : α × Attempt} {d' : MysqlDrive α} (h : execute s d = (.ok, d'))
    (sqls : List (α × Attempt)) :
    (connection start commit rollback).execEach (s :: sqls) d =
      (connection start commit rollback).execEach sqls d' := by
  have hex : (connection start commit rollback).execute s d = (.ok, d') := h
  rw [DbConnection.execEach, hex]
  rfl

theorem execEach_fails {s : α × Attempt} {err : HRet} {d' : MysqlDrive α} (h : execute s d = (err, d'))
    (herr : err ≠ .ok) (sqls : List (α × Attempt)) :
    ((connection start commit rollback).execEach (s :: sqls) d).1 ≠ .ok ∧
      ((connection start commit rollback).execEach (s :: sqls) d).2.server.committed =
        d'.server.committed := by
  have hex : (connection start commit rollback).execute s d = (err, d') := h
  rw [DbConnection.execEach, hex]
  simp only [herr, if_false]
  exact ⟨by decide, rollBack_committed rollback d'⟩

/-- In autocommit mode the effects of a prefix get committed, whatever is returned. -/
theorem execEach_autocommit (sqls : List (α × Attempt)) :
    ∀ (d : MysqlDrive α) (done : List α), InAutocommit d done →
      if (∀ b ∈ sqls, b.2.Succeeds) ∧ commit = .done then
        ((connection start commit rollback).execEach sqls d).1 = .ok ∧
          ((connection start commit rollback).execEach sqls d).2.server.committed =
            done ++ effects sqls
      else
        ((connection start commit rollback).execEach sqls d).1 ≠ .ok ∧
          done <+: ((connection start commit rollback).execEach sqls d).2.server.committed := by
  induction sqls with
  | nil =>
    rintro d done rfl
    cases commit with
    | done => simp [DbConnection.execEach, connection, MysqlDrive.execute, Server.wake, Server.run, effects]
    | refused => simp [DbConnection.execEach, connection, MysqlDrive.execute, Server.wake]
    | lost => simp [DbConnection.execEach, connection, MysqlDrive.execute, Server.lose]
    | unanswered =>
      simp [DbConnection.execEach, connection, MysqlDrive.execute, Server.wake, Server.run]
  | cons s sqls ih =>
    obtain ⟨x, a⟩ := s
    intro d done hd
    by_cases ha : a.Succeeds
    · obtain ⟨d', hex, hd'⟩ := autocommit_succeeds x hd ha
      have ih' := ih d' _ hd'
      have heffects : effects ((x, a) :: sqls) = effects [(x, a)] ++ effects sqls :=
        @List.flatMap_append _ _ [(x, a)] sqls _
      rw [execEach_ok start commit rollback hex]
      simp only [List.forall_mem_cons, ha, true_and]
      split at ih'
      · rename_i h
        rw [if_pos h, heffects, ← List.append_assoc]
        exact ih'
      · rename_i h
        rw [if_neg h]
        exact ⟨ih'.1, (List.prefix_append done _).trans ih'.2⟩
    · obtain ⟨err, d', hex, herr, hd'⟩ := autocommit_fails x hd ha
      obtain ⟨hret, hcommitted⟩ := execEach_fails start commit rollback hex herr sqls
      rw [if_neg fun h => ha (h.1 (x, a) List.mem_cons_self)]
      exact ⟨hret, by rw [hcommitted]; exact hd'⟩

/-- Inside the transaction: all or nothing if the effects are kept together. If they are not, an error
leaves some committed, and OK means that those are committed that were executed outside. -/
theorem execEach_transaction (sqls : List (α × Attempt)) :
    ∀ (d : MysqlDrive α) (p : List α), InTransaction d p →
      (Kept commit (sqls.map Prod.snd) →
        AllOrNothing (p ++ sqls.map Prod.fst)
          ((connection start commit rollback).execEach sqls d)) ∧
      (¬ Kept commit (sqls.map Prod.snd) → p ≠ [] →
        (((connection start commit rollback).execEach sqls d).1 = .ok →
          ∀ y ∈ ((connection start commit rollback).execEach sqls d).2.server.committed,
            y ∈ sqls.map Prod.fst) ∧
        (((connection start commit rollback).execEach sqls d).1 ≠ .ok →
          ((connection start commit rollback).execEach sqls d).2.server.committed ≠ [])) := by
  induction sqls with
  | nil =>
    rintro d p rfl
    cases commit with
    | done => simp [Kept, AllOrNothing, DbConnection.execEach, connection, MysqlDrive.execute, Server.wake,
        Server.run]
    | refused => simp [Kept, AllOrNothing, DbConnection.execEach, connection, MysqlDrive.execute,
        Server.wake]
    | lost => simp [Kept, AllOrNothing, DbConnection.execEach, connection, MysqlDrive.execute, Server.lose]
    | unanswered => simp [Kept, DbConnection.execEach, connection, MysqlDrive.execute, Server.wake,
        Server.run]
  | cons s sqls ih =>
    obtain ⟨x, a⟩ := s
    intro d p hd
    simp only [List.map_cons, Kept]
    by_cases hf : a.first = .done
    · obtain ⟨d', hex, hd'⟩ := transaction_first x hd hf
      have ih' := ih d' (p ++ [x]) hd'
      rw [List.append_assoc, List.singleton_append] at ih'
      rw [if_pos hf, execEach_ok start commit rollback hex]
      refine ⟨ih'.1, fun hnot _ => ?_⟩
      obtain ⟨hok, herr⟩ := ih'.2 hnot (List.append_ne_nil_of_right_ne_nil _ (List.cons_ne_nil _ _))
      exact ⟨fun hret y hy => List.mem_cons_of_mem _ (hok hret y hy), herr⟩
    · rw [if_neg hf, not_not]
      by_cases hs : a.Silent
      · obtain ⟨d', hex, hd'⟩ := transaction_silent x hd hs
        have hauto := execEach_autocommit start commit rollback sqls d' [x] hd'
        rw [execEach_ok start commit rollback hex]
        refine ⟨fun h => absurd hs.escapes h, fun _ _ => ?_⟩
        split at hauto
        · refine ⟨fun _ y hy => ?_, fun h => absurd hauto.1 h⟩
          rw [hauto.2] at hy
          rcases List.mem_append.mp hy with hy | hy
          · exact List.mem_cons.mpr (.inl (List.mem_singleton.mp hy))
          · exact List.mem_cons_of_mem _ (mem_of_mem_effects hy)
        · refine ⟨fun h => absurd h hauto.1, fun _ h => ?_⟩
          rw [h] at hauto
          exact absurd (List.prefix_nil.mp hauto.2) (List.cons_ne_nil _ _)
      · obtain ⟨err, d', hex, herr, hd'⟩ := transaction_fails x hd (not_or.mpr ⟨hf, hs⟩)
        obtain ⟨hret, hcommitted⟩ := execEach_fails start commit rollback hex herr sqls
        refine ⟨fun hkept => ⟨fun h => absurd h hret, fun _ => ?_⟩, fun hescapes _ =>
          ⟨fun h => absurd h hret, fun _ => ?_⟩⟩
        · rw [hcommitted, hd', if_neg hkept]
        · rw [hcommitted, hd', if_pos hescapes]
          exact List.cons_ne_nil _ _

/-- The whole list, from a transaction in which nothing is pending. -/
theorem execEach_atomic_iff (sqls : List (α × Attempt)) (hd : InTransaction d [])
    (hdistinct : (sqls.map Prod.fst).Nodup) :
    AllOrNothing (sqls.map Prod.fst) ((connection start commit rollback).execEach sqls d) ↔
      Atomic commit (sqls.map Prod.snd) := by
  cases sqls with
  | nil =>
    obtain rfl := hd
    refine iff_of_true ?_ trivial
    cases commit with
    | done => exact ⟨fun _ => rfl, fun _ => rfl⟩
    | refused => exact ⟨fun _ => rfl, fun _ => rfl⟩
    | lost => exact ⟨fun _ => rfl, fun _ => rfl⟩
    | unanswered => exact ⟨fun _ => rfl, fun _ => rfl⟩
  | cons s sqls =>
    obtain ⟨x, a⟩ := s
    rw [List.map_cons] at hdistinct
    simp only [List.map_cons, Atomic]
    by_cases hf : a.first = .done
    · obtain ⟨d', hex, hd'⟩ := transaction_first x hd hf
      have h := execEach_transaction start commit rollback sqls d' _ hd'
      rw [if_pos hf, execEach_ok start commit rollback hex]
      refine ⟨fun hall => ?_, h.1⟩
      by_contra hnot
      obtain ⟨hok, herr⟩ := h.2 hnot (List.cons_ne_nil _ _)
      by_cases hret : ((connection start commit rollback).execEach sqls d').1 = .ok
      · -- the effect of the first statement is missing
        refine (List.nodup_cons.mp hdistinct).1 (hok hret x ?_)
        rw [hall.1 hret]
        exact List.mem_cons_self
      · exact herr hret (hall.2 hret)
    · rw [if_neg hf]
      by_cases hs : a.Silent
      · obtain ⟨d', hex, hd'⟩ := transaction_silent x hd hs
        have hauto := execEach_autocommit start commit rollback sqls d' [x] hd'
        rw [execEach_ok start commit rollback hex]
        simp only [hs.escapes, hs.2, true_implies, true_and, List.forall_mem_map]
        split at hauto
        · rename_i hgood
          have honce : (∀ b ∈ sqls, b.2.Succeeds ∧ b.2.first ≠ .unanswered) ∧ commit = .done ↔
              effects sqls = sqls.map Prod.fst := by
            rw [effects_eq_iff]
            exact ⟨fun h b hb => (h.1 b hb).2, fun h => ⟨fun b hb => ⟨hgood.1 b hb, h b hb⟩, hgood.2⟩⟩
          rw [honce]
          constructor
          · intro hall
            exact (List.cons.inj (hauto.2.symm.trans (hall.1 hauto.1))).2
          · intro heffects
            refine ⟨fun _ => ?_, fun h => absurd hauto.1 h⟩
            rw [hauto.2, heffects]
            rfl
        · rename_i hbad
          refine iff_of_false (fun hall => ?_) fun h => hbad ⟨fun b hb => (h.1 b hb).1, h.2⟩
          have hp := hauto.2
          rw [hall.2 hauto.1] at hp
          exact absurd (List.prefix_nil.mp hp) (List.cons_ne_nil _ _)
      · obtain ⟨err, d', hex, herr, hd'⟩ := transaction_fails x hd (not_or.mpr ⟨hf, hs⟩)
        obtain ⟨hret, hcommitted⟩ := execEach_fails start commit rollback hex herr sqls
        constructor
        · intro hall hescapes
          have hnone := hall.2 hret
          rw [hcommitted, hd', if_pos hescapes] at hnone
          exact absurd hnone (List.cons_ne_nil _ _)
        · intro hatomic
          have hnot : ¬ a.Escapes := fun h => hs ⟨h.1, (hatomic h).1⟩
          exact ⟨fun h => absurd h hret, fun _ => by rw [hcommitted, hd', if_neg hnot]⟩

end Loop

/-- **All or nothing.** `MultiExec` keeps its promise exactly when the transaction cannot be
started, or no statement is executed outside of it and the commit is not executed without a reply, or only
the very first statement is executed outside and everything after it succeeds and is executed once. -/
theorem multiExec_atomic_iff {α : Type} (start commit rollback : QueryAnswer)
    (sqls : List (α × Attempt)) (d : MysqlDrive (α × Nat)) (h : Untouched d) :
    AllOrNothing ((numbered sqls).map Prod.fst)
        ((connection start commit rollback).multiExec (numbered sqls) d) ↔
      (d.inited ∧ d.connected ∧ start = .done → Atomic commit (sqls.map Prod.snd)) := by
  have hb := begin_spec start h
  split at hb
  · rename_i hok
    obtain ⟨d', hex, hd'⟩ := hb
    have hbegin : (connection start commit rollback).beginTransaction d = (.ok, d') := hex
    rw [DbConnection.multiExec, hbegin]
    simp only [if_true]
    rw [execEach_atomic_iff start commit rollback _ hd' (numbered_nodup sqls), numbered_snd]
    exact ⟨fun h _ => h, fun h => h hok⟩
  · rename_i hfail
    obtain ⟨err, d', hex, herr, hd'⟩ := hb
    have hbegin : (connection start commit rollback).beginTransaction d = (err, d') := hex
    rw [DbConnection.multiExec, hbegin]
    simp only [herr, if_false]
    exact ⟨fun _ h => absurd h hfail, fun _ => ⟨fun h => absurd h herr, fun _ => hd'⟩⟩

/-- An attempt that succeeds at once, and one during which the connection is replaced. -/
def Attempt.plain : Attempt := ⟨.done, .alive, .connected, .done⟩

def Attempt.reconnected : Attempt := ⟨.lost, .dead, .connected, .done⟩

/-- The connection is lost in the second statement for good: the first one is not committed either. -/
theorem multiExec_atomic_refused :
    AllOrNothing [("a", 0), ("b", 1)] ((connection .done .done .done).multiExec
      [(("a", 0), Attempt.plain), (("b", 1), ⟨.unanswered, .dead, .refused, .done⟩)]
      ⟨true, true, ⟨.autocommit, []⟩⟩) :=
  (multiExec_atomic_iff .done .done .done
    [("a", Attempt.plain), ("b", ⟨.unanswered, .dead, .refused, .done⟩)]
    ⟨true, true, ⟨.autocommit, []⟩⟩ ⟨rfl, nofun⟩).mpr fun _ => by
      simp [Atomic, Kept, Attempt.plain, Attempt.Escapes, Attempt.SentAgain]

/-- The connection is lost during the second of two statements: `MultiExec` returns OK, and only
the second statement is committed. And the reply to the commit is lost: `MultiExec` returns an error, and
both are committed. -/
theorem multiExec_loses_statement :
    (connection .done .done .done).multiExec
      [("a", Attempt.plain), ("b", Attempt.reconnected)] ⟨true, true, ⟨.autocommit, []⟩⟩ =
        (.ok, ⟨true, true, ⟨.autocommit, ["b"]⟩⟩) ∧
    (connection .done .unanswered .done).multiExec
      [("a", Attempt.plain), ("b", Attempt.plain)] ⟨true, true, ⟨.autocommit, []⟩⟩ =
        (.depError, ⟨true, true, ⟨.closed, ["a", "b"]⟩⟩) := by decide

end Db
end Huicpp
