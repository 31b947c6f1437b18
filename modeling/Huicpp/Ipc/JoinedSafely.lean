import Mathlib
import Huicpp.Ipc.InitCalls

/-!
# Ipc.JoinedSafely

What `Init` does to the objects that are there, and what it returns.

* `Harmless`: a call changes or removes no object but one that this `Init` created.
* `Returned`: `Init` returns the object of the key, unless there was none that is large enough and
  none could be created, or attaching failed.
* `careful`: the condition on the calls.
* `joined_safely`: in runs of such calls `Init` is harmless, returns after at most five calls, and
  returns what it should.
-/

namespace Huicpp
namespace Ipc

open Cxx Cxx.SystemV Cxx.SystemV.Table

abbrev MadeCall := Made Table Call Answer

abbrev History := List MadeCall

def isGet : Call → Bool
  | .get _ _ _ => true
  | _ => false

/-- The call created the object `id`. -/
def Creates (m : MadeCall) (id : Int) : Prop := m.before id = none ∧ m.after id ≠ none

def Created (h : History) (id : Int) : Prop := ∃ m ∈ h, Creates m id

def Harmless (h : History) (m : MadeCall) : Prop :=
  ∀ id o, m.before id = some o → m.after id = some o ∨ Created h id

/-- The call found the object of the key, large enough, or created it. -/
def Available (key : Int) (size : Nat) (m : MadeCall) : Prop :=
  isGet m.call = true ∧ (m.before.Joinable key size ∨ ∃ id, Creates m id)

/-- A call returned the object of the key. -/
def Found (key id : Int) (h : History) : Prop :=
  ∃ m ∈ h, isGet m.call = true ∧ m.answer.value = id ∧ ∃ o, m.after id = some o ∧ o.key = key

def AttachFailed (h : History) : Prop :=
  ∃ m ∈ h, (∃ id, m.call = .shmat id) ∧ m.answer.value = -1

/-- `Init` on `o` has returned `ret`, with the id that the handle has then. -/
def Returned (o : IpcBasic) (size : Nat) (ret : RET_T) (id : Int) (h : History) : Prop :=
  if o.hasInited then ret = .OK ∧ id = o.m_id
  else ret = .OK ∧ Found o.m_key id h ∨
    ret ≠ .OK ∧ ((∃ m ∈ h, Available o.m_key size m) → AttachFailed h)

/-- The condition on the `get` of `open`: an object that is there is not asked for with `IPC_EXCL`,
and the object has not the id 0. -/
def Opens (key : Int) (size : Nat) (flag : BitVec 32) (m : MadeCall) : Prop :=
  (m.before.Joinable key size → exclusive flag = false) ∧
    (m.answer.value = 0 → ¬ Available key size m)

/-- The condition on the `get` of `create`. -/
def Creatable (key : Int) (size : Nat) (flag : BitVec 32) (m : MadeCall) : Kind → Prop
  | .shareMemory => ¬ m.before.Joinable key size
  | .semaphore => m.answer.value ≠ 0
  | .messageQueue => m.before.Joinable key size → exclusive flag = false

/-- The condition on a call. The first `get` is that of `create`; where attaching fails, the
object was created. -/
def careful {kind : Kind} (o : Handle kind) (h : History) (m : MadeCall) : Prop :=
  match m.call with
  | .get _ _ flag =>
    if h = [] then Creatable o.base.m_key o.size flag m kind else Opens o.base.m_key o.size flag m
  | .shmat id => m.answer.value = -1 → Created h id
  | _ => True

/-! ## Calls -/

/-- What the others may do. Nobody removes a semaphore set. -/
def relies : Kind → Table → Table → Prop
  | .semaphore => Persists
  | _ => fun _ _ => True

/-- What is asked of a call. -/
def Ok (kind : Kind) (h : History) (m : MadeCall) : Prop :=
  Harmless h m ∧ relies kind m.before m.after

section

variable {h h' : History} {m : MadeCall} {T T' : Table} {key id : Int} {size : Nat}

theorem Created.mono (hc : Created h id) (hsub : h ⊆ h') : Created h' id := by
  obtain ⟨m, hm, hcreates⟩ := hc
  exact ⟨m, hsub hm, hcreates⟩

theorem AttachFailed.mono (ha : AttachFailed h) (hsub : h ⊆ h') : AttachFailed h' := by
  obtain ⟨m, hm, hfailed⟩ := ha
  exact ⟨m, hsub hm, hfailed⟩

theorem Found.mono (hf : Found key id h) (hsub : h ⊆ h') : Found key id h' := by
  obtain ⟨m, hm, hfound⟩ := hf
  exact ⟨m, hsub hm, hfound⟩

theorem Harmless.of_eq (he : m.after = m.before) : Harmless h m := by
  intro id o ho
  rw [he]
  exact .inl ho

/-- A call that touches one object, which this `Init` created. -/
theorem Harmless.of_created (hc : Created h id) (he : ∀ i, i ≠ id → m.after i = m.before i) :
    Harmless h m := by
  intro i o ho
  by_cases hi : i = id
  · rw [hi]
    exact .inr hc
  · exact .inl ((he i hi).trans ho)

theorem Creates.harmless {o : Obj} (hfree : T id = none) (c : Call) (x : Answer) :
    Harmless h ⟨T, c, x, T.set id (some o)⟩ := by
  intro i p hp
  by_cases hi : i = id
  · have hnone : T i = none := hi ▸ hfree
    cases hnone.symm.trans hp
  · exact .inl ((set_of_ne T _ hi).trans hp)

end

/-- A `get` finds the object, or creates it, or fails and changes nothing. -/
theorem get_spec {h : History} {T T' : Table} {key : Int} {size : Nat} {flag : BitVec 32}
    {x : Answer} (hget : Answers T (.get key size flag) x T') :
    Harmless h ⟨T, .get key size flag, x, T'⟩ ∧ Persists T T' ∧
      (0 ≤ x.value ∧ Found key x.value [⟨T, .get key size flag, x, T'⟩] ∧
          (T.Joinable key size ∨ Creates ⟨T, .get key size flag, x, T'⟩ x.value) ∨
        x.value = -1 ∧ T' = T ∧ Refusal T key size flag x.errno) := by
  rcases get_cases hget with ⟨o, hk, hsize, _, rfl⟩ | ⟨hx, rfl, href⟩ | ⟨hnone, hx, hfree, rfl⟩
  · have hk' := hk
    obtain ⟨_, hid, ho, hkey⟩ := hk
    exact ⟨.of_eq rfl, Persists.refl _, .inl ⟨hid, ⟨_, List.mem_singleton_self _, rfl, rfl, o, ho,
      hkey⟩, .inl ⟨x.value, o, hk', hsize⟩⟩⟩
  · exact ⟨.of_eq rfl, Persists.refl _, .inr ⟨hx, rfl, href⟩⟩
  · have hnew : T.set x.value (some ⟨key, size, List.replicate size 0⟩) x.value ≠ none := by simp
    have hkeep : Persists T (T.set x.value (some ⟨key, size, List.replicate size 0⟩)) := by
      intro i o ho
      have hi : i ≠ x.value := by
        rintro rfl
        rw [hfree] at ho
        cases ho
      exact ⟨o, (set_of_ne T _ hi).trans ho, rfl, rfl⟩
    exact ⟨Creates.harmless hfree _ _, hkeep, .inl ⟨hx, ⟨_, List.mem_singleton_self _, rfl, rfl, _,
      set_self _ _ _, rfl⟩, .inr ⟨hfree, hnew⟩⟩⟩

theorem joinable_of_available {T : Table} {key : Int} {size : Nat} {c : Call} {x : Answer}
    (hav : Available key size ⟨T, c, x, T⟩) : T.Joinable key size := by
  obtain ⟨_, hjoin | ⟨id, hfree, hnew⟩⟩ := hav
  · exact hjoin
  · exact absurd hfree hnew

theorem unavailable_of_refusal {T : Table} {key : Int} {size size' : Nat} {flag : BitVec 32}
    {c : Call} {x : Answer} (href : Refusal T key size' flag x.errno) (hsize : size' ≤ size)
    (hexcl : T.Joinable key size → exclusive flag = false) :
    ¬ Available key size ⟨T, c, x, T⟩ := by
  intro hav
  have hjoin := joinable_of_available hav
  obtain ⟨id, o, hk, ho⟩ := hjoin
  rcases href with ⟨_, ⟨hflag, _⟩ | ⟨hnot, _⟩⟩ | ⟨hnone, _⟩
  · rw [hexcl ⟨id, o, hk, ho⟩] at hflag
    cases hflag
  · exact hnot ⟨id, o, hk, hsize.trans ho⟩
  · exact hnone id o hk

theorem open_get {T T' : Table} {key : Int} {size size' : Nat} {flag : BitVec 32}
    {x : Answer} (hget : Answers T (.get key size' flag) x T') (hsize : size' ≤ size)
    (hopens : Opens key size flag ⟨T, .get key size' flag, x, T'⟩) :
    0 < x.value ∧ Found key x.value [⟨T, .get key size' flag, x, T'⟩] ∨
      ¬ 0 < x.value ∧ ¬ Available key size ⟨T, .get key size' flag, x, T'⟩ := by
  obtain ⟨_, _, ⟨hx, hfound, _⟩ | ⟨hx, rfl, href⟩⟩ := get_spec (h := []) hget
  · by_cases hzero : x.value = 0
    · exact .inr ⟨by omega, hopens.2 hzero⟩
    · exact .inl ⟨by omega, hfound⟩
  · exact .inr ⟨by omega, unavailable_of_refusal href hsize hopens.1⟩

theorem relies_refl (kind : Kind) (T : Table) : relies kind T T := by
  cases kind with
  | semaphore => exact Persists.refl T
  | shareMemory | messageQueue => exact trivial

theorem relies_trans (kind : Kind) (T₁ T₂ T₃ : Table) (h₁ : relies kind T₁ T₂)
    (h₂ : relies kind T₂ T₃) : relies kind T₁ T₃ := by
  cases kind with
  | semaphore => exact Persists.trans h₁ h₂
  | shareMemory | messageQueue => exact trivial

/-! ## `Init` over any `create` and `open` -/

/-- Calls of an `Init` on `o`. -/
def Meets {kind : Kind} {β : Type} (o : Handle kind) (post : β → History → Table → Prop)
    (p : Sys β) (h : History) (T : Table) : Prop :=
  Safe Answers (relies kind) (careful o) (Ok kind) post p h T

theorem Meets.call {kind : Kind} {β : Type} {o : Handle kind} {post : β → History → Table → Prop}
    {c : Call} {next : Answer → Sys β} {h : History} {T : Table}
    (hcall : ∀ T₁ x T₂, relies kind T T₁ → Answers T₁ c x T₂ → careful o h ⟨T₁, c, x, T₂⟩ →
      Ok kind h ⟨T₁, c, x, T₂⟩ ∧ Meets o post (next x) (h ++ [⟨T₁, c, x, T₂⟩]) T₂) :
    Meets o post (.call c next) h T := hcall

/-- `Init` has returned. -/
def InitPost {kind : Kind} (o : Handle kind) (b : RET_T × Handle kind) (h : History) (_ : Table) :
    Prop :=
  Returned o.base o.size b.1 b.2.base.m_id h

/-- `create` has returned: what it returns is final, or `open` is tried. -/
def CreatePost {kind : Kind} (o : Handle kind) (Tried : History → Table → Prop)
    (b : RET_T × Handle kind) (h : History) (T : Table) : Prop :=
  if b.1 = .OK ∨ b.1 = .SYS_FAILED then InitPost o b h T else b.2 = o ∧ Tried h T

theorem init_meets {kind : Kind} {o : Handle kind}
    {create open' : Handle kind → Sys (RET_T × Handle kind)} {Tried : History → Table → Prop}
    {T : Table} (hcreate : Meets o (CreatePost o Tried) (create o) [] T)
    (hopen : ∀ h T, Tried h T → Meets o (InitPost o) (open' o) h T) :
    Meets o (InitPost o) (IpcBasic.init create open' o) [] T := by
  refine Safe.bind (relies_refl kind) hcreate ?_
  rintro ⟨ret, o'⟩ h T hpost
  cases ret with
  | OK | SYS_FAILED => exact fun T' _ => hpost
  | SRC_ERR | ERR_STATUS =>
    obtain ⟨rfl, htried⟩ := hpost
    refine Safe.bind (relies_refl kind) (hopen h T htried) ?_
    rintro ⟨ret, o''⟩ h T hpost
    cases ret with
    | OK | SYS_FAILED | SRC_ERR | ERR_STATUS => exact fun T' _ => hpost

theorem returned_fresh {o : IpcBasic} (hfresh : o.hasInited = false) {size : Nat} {ret : RET_T}
    {id : Int} {h : History} :
    Returned o size ret id h ↔ ret = .OK ∧ Found o.m_key id h ∨
      ret ≠ .OK ∧ ((∃ m ∈ h, Available o.m_key size m) → AttachFailed h) := by
  rw [Returned, hfresh]
  exact Iff.rfl

theorem inited_meets {kind : Kind} {t : Handle kind} (hinit : t.base.hasInited = true)
    {create open' : Handle kind → Sys (RET_T × Handle kind)} (hcreate : create t = .ret (.OK, t))
    (T : Table) : Meets t (InitPost t) (IpcBasic.init create open' t) [] T := by
  rw [IpcBasic.init, hcreate]
  intro _ _
  rw [InitPost, Returned, if_pos hinit]
  exact ⟨rfl, rfl⟩

theorem opens_of_careful {kind : Kind} {t : Handle kind} {h : History} {T T' : Table} {key : Int}
    {size : Nat} {flag : BitVec 32} {x : Answer} (hne : h ≠ [])
    (hcare : careful t h ⟨T, .get key size flag, x, T'⟩) :
    Opens t.base.m_key t.size flag ⟨T, .get key size flag, x, T'⟩ := by
  simpa only [careful, if_neg hne] using hcare

theorem failed_returned {kind : Kind} {t o : Handle kind} (hfresh : t.base.hasInited = false)
    {h : History} {T : Table} (hno : ∀ m ∈ h, ¬ Available t.base.m_key t.size m) :
    InitPost t (.SYS_FAILED, o) h T := by
  refine (returned_fresh hfresh).mpr (.inr ⟨RET_T.noConfusion, ?_⟩)
  rintro ⟨m, hm, hav⟩
  exact absurd hav (hno m hm)

namespace HShareMemory

variable {t o : HShareMemory} {h : History} {T : Table}

theorem control_bind (hid : o.hasInited = true) {β : Type} (b : β) :
    (o.control >>= fun _ => .ret b) = .call (.rmid o.m_id) fun _ => .ret b := by
  rw [control, if_neg (not_not.mpr hid)]
  simp only [sys, Calls.lift_bind, Calls.call_bind]
  congr 1
  funext cb
  split <;> rfl

theorem remove_eq (hid : o.hasInited = true) :
    (o.setPtr .failed).remove = .call (.shmdt .failed) fun x => .call (.rmid o.m_id) fun _ =>
      .ret (.OK, (if x.value < 0 then o.setPtr .failed else (o.setPtr .failed).setPtr .null).setId
        IpcBasic.DEF_ID_VAL) := by
  have hinit : (o.setPtr .failed).hasInited = true := hid
  have hptr : (o.setPtr .failed).m_shm_ptr = .failed := rfl
  rw [remove, if_neg (not_not.mpr hinit), dettach, if_neg (not_not.mpr hinit), hptr,
    if_pos (by decide)]
  simp only [sys, Calls.lift_bind, Calls.call_bind]
  congr 1
  funext x
  by_cases hx : x.value < 0
  · simp only [if_pos hx, Calls.pure_eq, Calls.ret_bind]
    exact control_bind hinit _
  · simp only [if_neg hx, Calls.pure_eq, Calls.ret_bind]
    exact control_bind (o := (o.setPtr .failed).setPtr .null) hid _

theorem remove_meets (hid : o.hasInited = true) (hc : Created h o.m_id) :
    @Meets .shareMemory _ t (fun _ h' _ => ∃ h₂, h' = h ++ h₂) (o.setPtr .failed).remove h T := by
  rw [remove_eq hid]
  refine .call fun T₁ x T₂ _ hdt _ => ⟨⟨.of_eq (shmdt_failed hdt).2, trivial⟩, ?_⟩
  refine .call fun T₃ y T₄ _ hrm _ =>
    ⟨⟨.of_created (hc.mono (List.subset_append_left _ _)) fun i hi =>
      rmid_other hrm hi, trivial⟩, ?_⟩
  intro _ _
  exact ⟨_, List.append_assoc _ _ _⟩

/-- `shmat`, and what follows where it fails. -/
theorem attach_meets {post : RET_T × HShareMemory → History → Table → Prop}
    {id : Int} (hid : 0 ≤ id) {rest : Sys (RET_T × HShareMemory)}
    (hfailed : ∀ o h T, AttachFailed h → post (.SYS_FAILED, o) h T)
    (hrest : ∀ m T, @Meets .shareMemory _ t post rest (h ++ [m]) T) :
    @Meets .shareMemory _ t post (.call (.shmat id) fun ptr =>
      if ptr.value = -1 then do
        let b ← ((o.setId id).setPtr .failed).remove
        return (RET_T.SYS_FAILED, b.2)
      else rest) h T := by
  refine .call fun T₁ x T₂ _ hat hcare => ⟨⟨.of_eq (shmat_same hat), trivial⟩, ?_⟩
  by_cases hx : x.value = -1
  · rw [if_pos hx]
    have hinit : (o.setId id).hasInited = true := by
      have hne : id ≠ IpcBasic.DEF_ID_VAL := by
        rw [IpcBasic.DEF_ID_VAL]
        omega
      exact bne_iff_ne.mpr hne
    refine Safe.bind (relies_refl _) (remove_meets hinit ?_) ?_
    · exact (hcare hx).mono (List.subset_append_left _ _)
    · rintro b h' T' ⟨h₂, rfl⟩ T'' _
      refine hfailed b.2 _ _ (AttachFailed.mono ?_ (List.subset_append_left _ h₂))
      exact ⟨_, List.mem_append_right h List.mem_cons_self, ⟨id, rfl⟩, hx⟩
  · rw [if_neg hx]
    exact hrest _ T₂

theorem attachFailed_returned (hfresh : t.hasInited = false) (o : HShareMemory) (h : History)
    (T : Table) (hfail : AttachFailed h) : @InitPost .shareMemory t (.SYS_FAILED, o) h T :=
  (returned_fresh hfresh).mpr (.inr ⟨RET_T.noConfusion, fun _ => hfail⟩)

/-- `create` on a handle that has no object, where there is none for the key either. -/
theorem create_meets (hfresh : t.hasInited = false) (T : Table) :
    @Meets .shareMemory _ t (@CreatePost .shareMemory t fun h _ =>
      h ≠ [] ∧ ∀ m ∈ h, ¬ Available t.m_key t.m_size m) t.create [] T := by
  rw [create, if_neg (by rw [hfresh]; exact Bool.noConfusion)]
  simp only [sys, Calls.lift_bind]
  refine .call fun T₁ x T₂ _ hget hcare => ?_
  have hnot : ¬ T₁.Joinable t.m_key t.m_size := hcare
  obtain ⟨hharm, _, ⟨hx, hfound, hjoin | hnew⟩ | ⟨hx, rfl, href⟩⟩ := get_spec (h := []) hget
  · exact absurd hjoin hnot
  · refine ⟨⟨hharm, trivial⟩, ?_⟩
    rw [if_neg (by omega)]
    refine attach_meets hx ?_ fun m T' => ?_
    · exact attachFailed_returned hfresh
    have hcreated := Created.mono ⟨_, List.mem_singleton_self _, hnew⟩
      (List.subset_append_left _ [m])
    refine .call fun T₃ y T₄ _ hset _ =>
      ⟨⟨.of_created hcreated fun i hi => memset_other hset hi, trivial⟩, ?_⟩
    intro _ _
    refine (returned_fresh hfresh).mpr (.inl ⟨rfl, hfound.mono ?_⟩)
    exact List.Subset.trans (List.subset_append_left _ [m]) (List.subset_append_left _ _)
  · have hno : ∀ c, ¬ Available t.m_key t.m_size ⟨T₂, c, x, T₂⟩ := fun c =>
      unavailable_of_refusal href le_rfl fun hjoin => absurd hjoin hnot
    refine ⟨⟨hharm, trivial⟩, ?_⟩
    rw [if_pos (by omega)]
    split
    · intro _ _
      exact @failed_returned .shareMemory t t hfresh _ T₂
        (List.forall_mem_singleton.mpr (hno _))
    · intro _ _
      exact ⟨rfl, List.cons_ne_nil _ _, List.forall_mem_singleton.mpr (hno _)⟩

theorem open_meets (hfresh : t.hasInited = false) (h : History) (T : Table) (hne : h ≠ [])
    (hno : ∀ m ∈ h, ¬ Available t.m_key t.m_size m) :
    @Meets .shareMemory _ t (@InitPost .shareMemory t) t.open' h T := by
  rw [open', if_neg (by rw [hfresh]; exact Bool.noConfusion)]
  simp only [sys, Calls.lift_bind]
  refine .call fun T₁ x T₂ _ hget hcare => ⟨⟨(get_spec hget).1, trivial⟩, ?_⟩
  rcases open_get hget le_rfl (opens_of_careful hne hcare) with ⟨hx, hfound⟩ | ⟨hx, hlast⟩
  · rw [if_neg (not_not.mpr hx)]
    refine attach_meets hx.le ?_ fun m T' => ?_
    · exact attachFailed_returned hfresh
    intro _ _
    refine (returned_fresh hfresh).mpr (.inl ⟨rfl, hfound.mono ?_⟩)
    exact List.Subset.trans (List.subset_append_right h _) (List.subset_append_left _ [m])
  · rw [if_pos hx]
    intro _ _
    exact @failed_returned .shareMemory t t hfresh _ T₂
      (List.forall_mem_append.mpr ⟨hno, List.forall_mem_singleton.mpr hlast⟩)

theorem init_meets (t : HShareMemory) (T : Table) :
    @Meets .shareMemory _ t (@InitPost .shareMemory t) t.init [] T := by
  cases hfresh : t.hasInited with
  | false =>
    exact Ipc.init_meets (create_meets hfresh T) fun h T htried =>
      open_meets hfresh h T htried.1 htried.2
  | true => exact @inited_meets .shareMemory t hfresh create open' (if_pos hfresh) T

end HShareMemory

namespace HSemaphore

variable {t : HSemaphore}

/-- The object was there, and still is; and then it is large enough where it was. -/
def Tried (t : HSemaphore) (h : History) (T : Table) : Prop :=
  h ≠ [] ∧ (∃ id o, T.Keyed t.m_key id o) ∧
    ∀ m ∈ h, Available t.m_key t.m_nsems m → T.Joinable t.m_key t.m_nsems

theorem create_meets (hfresh : t.hasInited = false) (T : Table) :
    @Meets .semaphore _ t (@CreatePost .semaphore t (Tried t)) t.create [] T := by
  rw [create, if_neg (by rw [hfresh]; exact Bool.noConfusion)]
  simp only [sys, Calls.lift_bind]
  refine .call fun T₁ x T₂ _ hget hcare => ?_
  have hnonzero : x.value ≠ 0 := hcare
  obtain ⟨hharm, hkeep, ⟨hx, hfound, _⟩ | ⟨hx, rfl, href⟩⟩ := get_spec (h := []) hget
  · have hpos : x.value > 0 := by omega
    refine ⟨⟨hharm, hkeep⟩, ?_⟩
    rw [if_neg (not_not.mpr (.inl hpos)), if_neg (not_not.mpr hpos)]
    intro _ _
    exact (returned_fresh hfresh).mpr (.inl ⟨rfl, hfound⟩)
  · have hneg : ¬ x.value > 0 := by omega
    refine ⟨⟨hharm, hkeep⟩, ?_⟩
    by_cases he : x.errno = .EEXIST
    · rw [if_pos (not_or.mpr ⟨hneg, not_not.mpr he⟩)]
      have hkeyed : ∃ id o, T₂.Keyed t.m_key id o := by
        rcases href with ⟨hk, _⟩ | ⟨_, hne⟩
        · exact hk
        · exact absurd he hne
      intro T₃ hrely
      obtain ⟨id, o, hk⟩ := hkeyed
      obtain ⟨o', hk', _⟩ := hk.persists hrely
      refine ⟨rfl, List.cons_ne_nil _ _, ⟨id, o', hk'⟩, ?_⟩
      exact List.forall_mem_singleton.mpr fun hav => (joinable_of_available hav).persists hrely
    · rw [if_neg (not_not.mpr (.inr he)), if_pos hneg]
      intro _ _
      refine @failed_returned .semaphore t t hfresh _ T₂ (List.forall_mem_singleton.mpr ?_)
      intro hav
      obtain ⟨id, o, hk, ho⟩ := joinable_of_available hav
      rcases href with ⟨_, ⟨_, he'⟩ | ⟨hnot, _⟩⟩ | ⟨hnone, _⟩
      · exact he he'
      · exact hnot ⟨id, o, hk, ho⟩
      · exact hnone id o hk

theorem open_meets (hfresh : t.hasInited = false) (h : History) (T : Table) (htried : Tried t h T) :
    @Meets .semaphore _ t (@InitPost .semaphore t) t.open' h T := by
  obtain ⟨hne, ⟨id, o, hk⟩, hlarge⟩ := htried
  rw [open', if_neg (by rw [hfresh]; exact Bool.noConfusion)]
  simp only [sys, Calls.lift_bind]
  refine .call fun T₁ x T₂ hrely hget hcare => ?_
  have hopens := opens_of_careful hne hcare
  refine ⟨⟨(get_spec hget).1, (get_spec (h := h) hget).2.1⟩, ?_⟩
  rcases open_get hget (Nat.zero_le t.m_nsems) hopens with ⟨hx, hfound⟩ | ⟨hx, hlast⟩
  · rw [if_neg (not_not.mpr hx)]
    intro _ _
    refine (returned_fresh hfresh).mpr (.inl ⟨rfl, hfound.mono ?_⟩)
    exact List.subset_append_right h _
  · rw [if_pos hx]
    intro _ _
    refine @failed_returned .semaphore t t hfresh _ T₂ (List.forall_mem_append.mpr
      ⟨fun m hm hav => ?_, List.forall_mem_singleton.mpr hlast⟩)
    -- what was large enough for `create` is so now
    exact hlast ⟨rfl, .inl ((hlarge m hm hav).persists hrely)⟩

theorem init_meets (t : HSemaphore) (T : Table) :
    @Meets .semaphore _ t (@InitPost .semaphore t) t.init [] T := by
  cases hfresh : t.hasInited with
  | false => exact Ipc.init_meets (create_meets hfresh T) (open_meets hfresh)
  | true => exact @inited_meets .semaphore t hfresh create open' (if_pos hfresh) T

end HSemaphore

namespace HMessageQueue

variable {t : HMessageQueue}

theorem create_meets (hfresh : t.hasInited = false) (T : Table) :
    @Meets .messageQueue _ t (@CreatePost .messageQueue t fun h _ =>
      h ≠ [] ∧ ∀ m ∈ h, ¬ Available t.m_key 0 m) t.create [] T := by
  rw [create, if_neg (by rw [hfresh]; exact Bool.noConfusion)]
  simp only [sys, Calls.lift_bind]
  refine .call fun T₁ x T₂ _ hget hcare => ?_
  have hexcl : T₁.Joinable t.m_key 0 → exclusive (t.m_flag ||| IPC_CREAT ||| 600#32) = false :=
    hcare
  obtain ⟨hharm, _, ⟨hx, hfound, _⟩ | ⟨hx, rfl, href⟩⟩ := get_spec (h := []) hget
  · refine ⟨⟨hharm, trivial⟩, ?_⟩
    rw [if_neg (by omega)]
    intro _ _
    exact (returned_fresh hfresh).mpr (.inl ⟨rfl, hfound⟩)
  · have hno : ∀ c, ¬ Available t.m_key 0 ⟨T₂, c, x, T₂⟩ := fun c =>
      unavailable_of_refusal href le_rfl hexcl
    refine ⟨⟨hharm, trivial⟩, ?_⟩
    rw [if_pos (by omega)]
    split
    · intro _ _
      exact @failed_returned .messageQueue t t hfresh _ T₂
        (List.forall_mem_singleton.mpr (hno _))
    · intro _ _
      exact ⟨rfl, List.cons_ne_nil _ _, List.forall_mem_singleton.mpr (hno _)⟩

theorem open_meets (hfresh : t.hasInited = false) (h : History) (T : Table) (hne : h ≠ [])
    (hno : ∀ m ∈ h, ¬ Available t.m_key 0 m) :
    @Meets .messageQueue _ t (@InitPost .messageQueue t) t.open' h T := by
  rw [open', if_neg (by rw [hfresh]; exact Bool.noConfusion)]
  simp only [sys, Calls.lift_bind]
  refine .call fun T₁ x T₂ _ hget hcare => ⟨⟨(get_spec hget).1, trivial⟩, ?_⟩
  rcases open_get hget le_rfl (opens_of_careful hne hcare) with ⟨hx, hfound⟩ | ⟨hx, hlast⟩
  · rw [if_neg (not_not.mpr hx)]
    intro _ _
    refine (returned_fresh hfresh).mpr (.inl ⟨rfl, hfound.mono ?_⟩)
    exact List.subset_append_right h _
  · rw [if_pos hx]
    intro _ _
    exact @failed_returned .messageQueue t t hfresh _ T₂
      (List.forall_mem_append.mpr ⟨hno, List.forall_mem_singleton.mpr hlast⟩)

theorem init_meets (t : HMessageQueue) (T : Table) :
    @Meets .messageQueue _ t (@InitPost .messageQueue t) t.init [] T := by
  cases hfresh : t.hasInited with
  | false =>
    exact Ipc.init_meets (create_meets hfresh T) fun h T htried =>
      open_meets hfresh h T htried.1 htried.2
  | true => exact @inited_meets .messageQueue t hfresh create open' (if_pos hfresh) T

end HMessageQueue

/-! ## How many calls there are -/

namespace HShareMemory

theorem dettach_atMost (o : HShareMemory) : o.dettach.AtMost 1 := by
  rw [dettach]
  simp only [sys, Calls.lift_bind]
  split
  · exact trivial
  · split
    · refine .call fun x => ?_
      split <;> exact trivial
    · exact trivial

theorem control_atMost (o : HShareMemory) : o.control.AtMost 1 := by
  rw [control]
  simp only [sys, Calls.lift_bind]
  split
  · exact trivial
  · refine .call fun x => ?_
    split <;> exact trivial

theorem remove_atMost (o : HShareMemory) : o.remove.AtMost 2 := by
  rw [remove]
  split
  · exact trivial
  · exact (dettach_atMost o).bind fun b => (control_atMost b.2).bind fun _ => trivial

theorem failed_atMost (o : HShareMemory) :
    Calls.AtMost (o.remove >>= fun b => (pure (RET_T.SYS_FAILED, b.2) : Sys _)) 2 :=
  (remove_atMost o).bind (n := 0) fun _ => trivial

theorem create_atMost (o : HShareMemory) : o.create.AtMost 4 := by
  rw [create]
  simp only [sys, Calls.lift_bind]
  split
  · exact trivial
  · refine .call fun x => ?_
    split
    · split <;> exact trivial
    · refine .call fun y => ?_
      split
      · exact failed_atMost _
      · exact fun _ => trivial

theorem open_atMost (o : HShareMemory) : o.open'.AtMost 4 := by
  rw [open']
  simp only [sys, Calls.lift_bind]
  split
  · exact trivial
  · refine .call fun x => ?_
    split
    · exact trivial
    · refine .call fun y => ?_
      split
      · exact failed_atMost _
      · exact trivial

end HShareMemory

theorem HSemaphore.create_atMost (o : HSemaphore) : o.create.AtMost 4 := by
  rw [create]
  simp only [sys, Calls.lift_bind]
  split
  · exact trivial
  · refine .call fun x => ?_
    split
    · exact trivial
    · split <;> exact trivial

theorem HSemaphore.open_atMost (o : HSemaphore) : o.open'.AtMost 4 := by
  rw [open']
  simp only [sys, Calls.lift_bind]
  split
  · exact trivial
  · refine .call fun x => ?_
    split <;> exact trivial

theorem HMessageQueue.create_atMost (o : HMessageQueue) : o.create.AtMost 4 := by
  rw [create]
  simp only [sys, Calls.lift_bind]
  split
  · exact trivial
  · refine .call fun x => ?_
    split
    · split <;> exact trivial
    · exact trivial

theorem HMessageQueue.open_atMost (o : HMessageQueue) : o.open'.AtMost 4 := by
  rw [open']
  simp only [sys, Calls.lift_bind]
  split
  · exact trivial
  · refine .call fun x => ?_
    split <;> exact trivial

theorem IpcBasic.init_atMost {H : Type} {create open' : H → Sys (RET_T × H)}
    (hcreate : ∀ o, (create o).AtMost 4) (hopen : ∀ o, (open' o).AtMost 4) (o : H) :
    (IpcBasic.init create open' o).AtMost 8 := by
  refine (hcreate o).bind (n := 4) ?_
  rintro ⟨ret, o'⟩
  cases ret with
  | OK | SYS_FAILED => exact trivial
  | SRC_ERR | ERR_STATUS =>
    refine (hopen o').bind (n := 0) ?_
    rintro ⟨ret, o''⟩
    cases ret <;> exact trivial

theorem Handle.init_atMost {kind : Kind} (t : Handle kind) : t.init.AtMost 8 := by
  cases kind with
  | shareMemory =>
    exact IpcBasic.init_atMost HShareMemory.create_atMost HShareMemory.open_atMost t
  | semaphore => exact IpcBasic.init_atMost HSemaphore.create_atMost HSemaphore.open_atMost t
  | messageQueue =>
    exact IpcBasic.init_atMost HMessageQueue.create_atMost HMessageQueue.open_atMost t

/-! ## Every run -/

theorem Handle.init_meets {kind : Kind} (t : Handle kind) (T : Table) :
    Meets t (InitPost t) t.init [] T := by
  cases kind with
  | shareMemory => exact HShareMemory.init_meets t T
  | semaphore => exact HSemaphore.init_meets t T
  | messageQueue => exact HMessageQueue.init_meets t T

theorem relyGuarantee (kind : Kind) :
    SharedBy.RelyGuarantee (@Handle.init kind) Answers Written (relies kind) careful
      (fun _ => Ok kind) InitPost where
  refl := relies_refl kind
  trans := relies_trans kind
  world T T' h := by
    cases kind with
    | semaphore => exact h.persists
    | shareMemory | messageQueue => exact trivial
  made _ _ _ hok := hok.2
  main := Handle.init_meets

/-- Whatever the step did to an object that was there: nothing, or somebody wrote to it, or it was a
call of an `Init` that had created it. -/
def Undamaged {ι : Type} {kind : Kind}
    (s : SharedBy ι (Handle kind) Table Call Answer (RET_T × Handle kind))
    (e : SharedBy.Event ι (Handle kind) Table Call Answer)
    (s' : SharedBy ι (Handle kind) Table Call Answer (RET_T × Handle kind)) : Prop :=
  match e with
  | .start _ _ => s'.shared = s.shared
  | .call i _ => ∀ id o, s.shared id = some o →
      s'.shared id = some o ∨ ∃ p, s.clients i = some p ∧ Created p.history id
  | .world => Persists s.shared s'.shared

/-- **Objects are joined safely.** In a run of careful calls every call of an `Init` leaves alone
what this `Init` did not create, every `Init` goes on until it returns, after at most eight calls,
and it returns the object of the key, unless there was none to be had or attaching failed. -/
theorem joined_safely {ι : Type} [DecidableEq ι] {kind : Kind}
    (s : SharedBy ι (Handle kind) Table Call Answer (RET_T × Handle kind))
    (h : ((inits ι kind).restrict (SharedBy.Careful careful)).Reachable s) :
    (∀ e s', (inits ι kind).step s e s' → SharedBy.Careful careful s e s' → Undamaged s e s') ∧
      (∀ i p, s.clients i = some p → p.history.length ≤ 8 ∧
        ∀ c next, p.program = .call c next → ∃ x T, Answers s.shared c x T) ∧
      ∀ i t ret o h, s.clients i = some ⟨t, .ret (ret, o), h⟩ →
        Returned t.base t.size ret o.base.m_id h := by
  refine ⟨fun e s' hstep hcare => ?_, fun i p hp => ⟨?_, fun c _ _ => answered s.shared c⟩, ?_⟩
  · cases hstep with
    | start i t => exact rfl
    | call i t c next hist x T hi hx =>
      have hok := (relyGuarantee kind).made_ok h hi hx (hcare _ hi)
      intro id o ho
      rcases hok.1 id o ho with hsame | hcreated
      · exact .inl hsame
      · exact .inr ⟨_, hi, hcreated⟩
    | world T hw => exact hw.persists
  · obtain ⟨tr, hrun⟩ := h
    obtain ⟨m, hlen, _⟩ := SharedBy.atMost_of_reachable Handle.init_atMost ⟨tr, hrun.of_restrict⟩ hp
    omega
  · intro i t ret o hist hi
    exact (relyGuarantee kind).returned h hi

/-- One process creates a queue with the id 3 for the key 7, and another one joins it. -/
theorem joined_safely_two :
    let t : Handle .messageQueue := HMessageQueue.new 7 0x180#32
    ∃ m m', Creates m 3 ∧ m'.before = m.after ∧ m'.after = m.after ∧
      Returned t.base t.size .OK 3 [m] ∧ Returned t.base t.size .OK 3 [m'] := by
  intro t
  let S := (inits Nat .messageQueue).restrict (SharedBy.Careful careful)
  let T : Table := Table.set (fun _ => none) 3 (some ⟨7, 0, []⟩)
  let c : Call := .get (HMessageQueue.new 7 0x180#32).m_key 0
    ((HMessageQueue.new 7 0x180#32).m_flag ||| IPC_CREAT ||| 600#32)
  let x : Answer := ⟨3, .EINVAL⟩
  let m : MadeCall := ⟨fun _ => none, c, x, T⟩
  let m' : MadeCall := ⟨T, c, x, T⟩
  have hcreate : Answers (fun _ => none) c x T := by
    refine .created 7 3 0 _ .EINVAL ?_ (.inl (by decide)) (by decide) rfl
    rintro id o ⟨_, _, ho, _⟩
    cases ho
  have hjoin : Answers T c x T :=
    .found 7 3 ⟨7, 0, []⟩ 0 _ .EINVAL ⟨by decide, by decide, rfl, rfl⟩ le_rfl (by decide)
  have hcareful : careful t [] m ∧ careful t [] m' := ⟨fun _ => by decide, fun _ => by decide⟩
  have h₀ : S.Reachable ⟨fun _ => none, fun _ => none⟩ := .of_init fun _ => rfl
  have h₁ := h₀.next ⟨.start _ 0 t, trivial⟩
  have h₂ := h₁.next ⟨.call _ 0 t _ _ [] x T rfl hcreate, fun p hp => by
    cases hp
    exact hcareful.1⟩
  have h₃ := h₂.next ⟨.start _ 1 t, trivial⟩
  have h₄ := h₃.next ⟨.call _ 1 t _ _ [] x T rfl hjoin, fun p hp => by
    cases hp
    exact hcareful.2⟩
  obtain ⟨_, _, hreturned⟩ := joined_safely _ h₄
  refine ⟨m, m', ⟨rfl, Option.some_ne_none _⟩, rfl, rfl, ?_, ?_⟩
  · exact hreturned 0 t .OK (HMessageQueue.setId t 3) [m] rfl
  · exact hreturned 1 t .OK (HMessageQueue.setId t 3) [m'] rfl

/-- The key 7 has a segment with the id 5. `Init` clears it. -/
theorem init_clears_segment :
    ∃ (s s' : SharedBy Nat (Handle .shareMemory) Table Call Answer (RET_T × Handle .shareMemory))
      (e : SharedBy.Event Nat (Handle .shareMemory) Table Call Answer),
      (inits Nat .shareMemory).Reachable s ∧ (inits Nat .shareMemory).step s e s' ∧
        ¬ Undamaged s e s' := by
  let T : Table := Table.set (fun _ => none) 5 (some ⟨7, 1, [1]⟩)
  let t : Handle .shareMemory := HShareMemory.new 7 1 0x380#32
  have h₀ : (inits Nat .shareMemory).Reachable ⟨T, fun _ => none⟩ := .of_init fun _ => rfl
  have h₁ := h₀.next (.start _ 0 t)
  have hget : Answers T (.get (HShareMemory.new 7 1 0x380#32).m_key
      (HShareMemory.new 7 1 0x380#32).m_size
      ((HShareMemory.new 7 1 0x380#32).m_flag ||| IPC_CREAT ||| 600#32)) ⟨5, .EINVAL⟩ T :=
    .found 7 5 ⟨7, 1, [1]⟩ 1 _ .EINVAL ⟨by decide, by decide, rfl, rfl⟩ le_rfl (by decide)
  have h₂ := h₁.next (.call _ 0 t _ _ [] ⟨5, .EINVAL⟩ T rfl hget)
  have h₃ := h₂.next (.call _ 0 t _ _ _ ⟨0, .EINVAL⟩ T rfl (.attached 5 ⟨7, 1, [1]⟩ .EINVAL rfl))
  refine ⟨_, _, _, h₃, .call _ 0 t _ _ _ ⟨0, .EINVAL⟩ _ rfl (.memset (.segment 5) 1 .EINVAL), ?_⟩
  intro hund
  rcases hund 5 ⟨7, 1, [1]⟩ rfl with hsame | ⟨p, hp, m, hm, hfree, _⟩
  · cases hsame
  · cases hp
    -- neither call before created it
    have hbefore : m.before = T := by
      rcases List.mem_cons.mp hm with rfl | hm
      · rfl
      · obtain rfl := List.mem_singleton.mp hm
        rfl
    rw [hbefore] at hfree
    cases hfree

end Ipc
end Huicpp
