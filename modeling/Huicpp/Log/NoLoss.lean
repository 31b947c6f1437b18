import Mathlib
import Huicpp.Log.LogFile

/-!
# Log.NoLoss

Where the records are. As long as the log rolls over into another period, every record is in the
file of the descriptor or in a backup that is still listed, and a backup with records is never the
target of a rename. When a message of another period comes while the clock is still in the period of the
log, the file just opened is the one that is renamed.
-/

namespace Huicpp
namespace Log

open Cxx

namespace LogFile

variable (C : LogConfig)

/-- Files that records may be in. -/
def Holds (s : LogFile) (i : Nat) : Prop :=
  i = s.fd ∨ (∃ n ∈ s.m_backup_logs, s.directory.file n = some i) ∨ C.m_value = .DAY ∧ i ∈ s.retired

structure Inv (s : LogFile) : Prop where
  current : s.directory.file (getFileName C s.m_mtTime "") = some s.fd
  backups : ∀ n ∈ s.m_backup_logs, ∃ t, n = getFileName C t "bak"
  records : ∀ r ∈ s.written, ∃ i < s.directory.fresh, r ∈ s.directory.content i ∧ Holds C s i

variable {C} {s : LogFile}

theorem name_ne_bak (C : LogConfig) (t t' : Int) :
    getFileName C t "" ≠ getFileName C t' "bak" :=
  Log.getFileName_ne_bak _ _ _ _

theorem ne_backup (h : Inv C s) {n : String} (hn : n ∈ s.m_backup_logs) (t : Int) :
    getFileName C t "" ≠ n := by
  obtain ⟨t', rfl⟩ := h.backups n hn
  exact name_ne_bak C t t'

theorem Inv.kept (h : Inv C s) : Kept C s where
  current := h.current
  written r hr := by
    obtain ⟨i, -, hri, rfl | ⟨n, -, hn⟩ | hret⟩ := h.records r hr
    · exact ⟨_, hri, .inl ⟨_, h.current⟩⟩
    · exact ⟨i, hri, .inl ⟨n, hn⟩⟩
    · exact ⟨i, hri, .inr hret⟩

theorem init_inv (C : LogConfig) (directory : Directory String Record) (now : Int) :
    Inv C (init C directory now) where
  current := Directory.openAppend_file
  backups _ hn := absurd hn List.not_mem_nil
  records _ hr := absurd hr List.not_mem_nil

/-! ## The steps of a write -/

theorem writeString_inv (h : Inv C s) (msg : LogMessage) : Inv C (s.writeString msg) where
  current := h.current
  backups := h.backups
  records r hr := by
    rcases List.mem_append.mp hr with hr | hr
    · obtain ⟨i, hi, hri, hheld⟩ := h.records r hr
      exact ⟨i, hi, Directory.mem_append_of_mem hri, hheld⟩
    · rw [List.mem_singleton.mp hr]
      exact ⟨s.fd, s.directory.file_lt _ _ h.current, Directory.mem_append_self _, .inl rfl⟩

theorem retain_inv (h : Inv C s) : Inv C (s.retain C) := by
  unfold retain
  split
  · exact h
  · next f rest hlogs =>
    split
    · next hday =>
      have hf : ∀ t, getFileName C t "" ≠ f := ne_backup h (hlogs ▸ List.mem_cons_self ..)
      refine ⟨?_, ?_, ?_⟩
      · exact (Directory.remove_other (hf s.m_mtTime)).trans h.current
      · exact fun n hn => h.backups n (hlogs ▸ List.mem_cons_of_mem f hn)
      · intro r hr
        obtain ⟨i, hi, hri, rfl | ⟨n, hn, hni⟩ | ⟨-, hret⟩⟩ := h.records r hr
        · exact ⟨_, hi, hri, .inl rfl⟩
        · by_cases hnf : n = f
          · refine ⟨i, hi, hri, .inr (.inr ⟨hday.2, List.mem_append_right _ ?_⟩)⟩
            rw [← hnf, hni]
            exact List.mem_singleton_self i
          · rw [hlogs, List.mem_cons] at hn
            refine ⟨i, hi, hri, .inr (.inl ⟨n, hn.resolve_left hnf, ?_⟩)⟩
            exact (Directory.remove_other hnf).trans hni
        · exact ⟨i, hi, hri, .inr (.inr ⟨hday.2, List.mem_append_left _ hret⟩)⟩
    · exact h

/-- The log between the rename and the retention. -/
def rolled (C : LogConfig) (now : Int) (s : LogFile) : LogFile :=
  let s₁ := ({ s with m_mtTime := now } : LogFile).dup2 (getFileName C now "")
  { s₁ with
    directory := s₁.directory.rename (getFileName C s.m_mtTime "") (getFileName C s.m_mtTime "bak")
    m_backup_logs := s₁.m_backup_logs ++ [getFileName C s.m_mtTime "bak"] }

theorem rollBack_eq (mt now : Int) (s : LogFile) :
    rollBack C mt now s =
      if needRollback C s.m_mtTime mt = true then (rolled C now s).retain C else s := by
  unfold rollBack doRollback
  split
  · rfl
  · rfl

theorem rolled_inv (h : Inv C s) {now : Int}
    (hname : getFileName C now "" ≠ getFileName C s.m_mtTime "")
    (hbak : ∀ i, s.directory.file (getFileName C s.m_mtTime "bak") = some i → i ≠ s.fd →
      ∀ r ∈ s.written, r ∉ s.directory.content i) : Inv C (rolled C now s) := by
  have hsrc : (s.directory.openAppend (getFileName C now "")).2.file (getFileName C s.m_mtTime "") =
      some s.fd := (Directory.openAppend_other hname.symm).trans h.current
  have hne : ∀ t, getFileName C t "" ≠ getFileName C s.m_mtTime "bak" := fun t =>
    name_ne_bak C t s.m_mtTime
  refine ⟨?_, ?_, ?_⟩
  · exact (Directory.rename_other hname (hne now)).trans Directory.openAppend_file
  · intro n hn
    rcases List.mem_append.mp hn with hn | hn
    · exact h.backups n hn
    · exact ⟨s.m_mtTime, List.mem_singleton.mp hn⟩
  · intro r hr
    obtain ⟨i, hi, hri, hheld⟩ := h.records r hr
    refine ⟨i, ?_, ?_, ?_⟩
    · exact lt_of_lt_of_le hi (Directory.openAppend_fresh.trans Directory.rename_fresh.ge)
    · show r ∈ (Directory.rename _ _ _).content i
      rw [Directory.rename_content, dup2, Directory.openAppend_content hi]
      exact hri
    · by_cases hfd : i = s.fd
      · refine .inr (.inl ⟨_, List.mem_append_right _ (List.mem_singleton_self _), ?_⟩)
        rw [hfd]
        exact Directory.rename_target (hne s.m_mtTime).symm hsrc
      · rcases hheld with heq | ⟨n, hn, hni⟩ | hret
        · exact absurd heq hfd
        · have hnb : n ≠ getFileName C s.m_mtTime "bak" := fun heq =>
            hbak i (heq ▸ hni) hfd r hr hri
          refine .inr (.inl ⟨n, List.mem_append_left _ hn, ?_⟩)
          exact (Directory.rename_other (ne_backup h hn _).symm hnb).trans
            ((Directory.openAppend_other (ne_backup h hn now).symm).trans hni)
        · exact .inr (.inr hret)

theorem write_inv (h : Inv C s) {a : LogMessage × Int} (ha : RollsOn C s a) :
    Inv C (next C a s) := by
  have hroll : Inv C (rollBack C a.1.m_time a.2 s) := by
    rw [rollBack_eq]
    split
    · next hneed => exact retain_inv (rolled_inv h (ha hneed).1 (ha hneed).2)
    · exact h
  have hwrite := writeString_inv hroll a.1
  exact ⟨hwrite.current, hwrite.backups, hwrite.records⟩

theorem reachable_inv (h : ((system C).restrict fun s a _ => RollsOn C s a).Reachable s) :
    Inv C s := by
  refine h.invariant (Inv C) ?_ ?_
  · rintro s ⟨directory, now, rfl⟩
    exact init_inv C directory now
  · rintro s a s' hinv ⟨⟨-, rfl⟩, hroll⟩
    exact write_inv hinv hroll

/-- Every run, of any length and with messages of any time, in which the log rolls on. -/
theorem messages_kept (h : ((system C).restrict fun s a _ => RollsOn C s a).Reachable s) :
    Kept C s :=
  (reachable_inv h).kept

/-! ## A message of another period -/

/-- The clock is still in the period of the log: the name of the log is gone. -/
theorem rolled_same_name (h : Inv C s) {now : Int}
    (hname : getFileName C now "" = getFileName C s.m_mtTime "")
    (hbak : s.directory.file (getFileName C s.m_mtTime "bak") ≠ some s.fd) :
    (rolled C now s).directory.file (getFileName C now "") = none := by
  have hopen : s.directory.openAppend (getFileName C now "") = (s.fd, s.directory) := by
    rw [hname, Directory.openAppend, h.current]
  rw [rolled, dup2, hopen, hname]
  exact Directory.rename_source h.current hbak

theorem retain_file_none {n : String} (h : s.directory.file n = none) :
    (s.retain C).directory.file n = none := by
  unfold retain
  split
  · exact h
  · next f rest _ =>
    split
    · by_cases hnf : n = f
      · rw [hnf]
        exact Function.update_self ..
      · exact (Directory.remove_other hnf).trans h
    · exact h

@[simp] theorem retain_time : (s.retain C).m_mtTime = s.m_mtTime := by
  unfold retain
  split
  · rfl
  · split <;> rfl

theorem not_kept_of_same_name (h : Inv C s) {a : LogMessage × Int}
    (hneed : needRollback C s.m_mtTime a.1.m_time = true)
    (hname : getFileName C a.2 "" = getFileName C s.m_mtTime "")
    (hbak : s.directory.file (getFileName C s.m_mtTime "bak") ≠ some s.fd) :
    ¬ Kept C (next C a s) := by
  intro hkept
  have hcurrent := hkept.current
  rw [next, write, rollBack_eq, if_pos hneed] at hcurrent
  have hnone := retain_file_none (C := C) (rolled_same_name h hname hbak)
  have htime : ((rolled C a.2 s).retain C).m_mtTime = a.2 := retain_time
  have hfile : ((rolled C a.2 s).retain C).directory.file
      (getFileName C ((rolled C a.2 s).retain C).m_mtTime "") = some ((rolled C a.2 s).retain C).fd :=
    hcurrent
  rw [htime, hnone] at hfile
  cases hfile

/-! ## The first day of 1970 -/

/-- The local time in UTC, on that day. -/
def firstDay (sec : Int) : Tm where
  tm_year := 70
  tm_mon := 0
  tm_mday := 1
  tm_hour := (sec / 3600 % 24).toNat
  tm_min := (sec / 60 % 60).toNat
  mon_lt := by decide
  mday_lt := by decide
  hour_lt := by omega
  min_lt := by omega

def hourly : LogConfig := ⟨"app", .HOUR, firstDay⟩

/-- A message of eleven, written at eleven, to a log of ten. -/
theorem messages_kept_elevenOClock : Kept hourly
    (next hourly (⟨39600000000, "eleven"⟩, 39600000000) (init hourly .empty 36000000000)) := by
  refine messages_kept (.next (a := (⟨39600000000, "eleven"⟩, 39600000000))
    (.of_init ⟨.empty, 36000000000, rfl⟩) ⟨⟨?_, rfl⟩, ?_⟩)
  · decide
  · intro _
    refine ⟨fun hname => ?_, fun _ _ _ r hr => absurd hr List.not_mem_nil⟩
    exact absurd ((getFileName_eq_iff ..).mp hname).2 (by decide)

/-- A message stamped at nine, written to a log of ten while it is still ten o'clock. -/
theorem staleMessage_not_kept : ∃ s, (system hourly).Reachable s ∧ ¬ Kept hourly s := by
  refine ⟨next hourly (⟨32400000000, "nine"⟩, 36000000000) (init hourly .empty 36000000000),
    .next (a := (⟨32400000000, "nine"⟩, 36000000000))
      (.of_init ⟨.empty, 36000000000, rfl⟩) ⟨?_, rfl⟩, ?_⟩
  · decide
  · refine not_kept_of_same_name (init_inv ..) ?_ rfl ?_
    · decide
    · intro hbak
      have hnone : (init hourly .empty 36000000000).directory.file
          (getFileName hourly 36000000000 "bak") = none :=
        Directory.openAppend_other (d := .empty) (name_ne_bak hourly 36000000000 _).symm
      exact absurd (hnone.symm.trans hbak) (by simp)

end LogFile

end Log
end Huicpp
