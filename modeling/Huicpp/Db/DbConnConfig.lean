import Mathlib
import Huicpp.HRet
import Huicpp.Cxx.Ownership
import Huicpp.Cxx.TransitionSystem
import Huicpp.Sql.Literals

/-!
# Db.DbConnConfig

The registry of connections by name. `InitFromConfigFile` makes `conn_count` connections for each entry of
the file and puts them behind those that are there; it stops at the first entry that is wrong, and what it
has added until then stays. A connection that does not connect is neither added nor deleted. `AddConn` is
given any pointer.

What the allocator, the connections and the parser of the file answer are arguments.

* `conns_found`: what `GetConn` finds, and which connections the destructor deletes.
* `init_ok_iff`: when the file is good, and what it adds.
-/

namespace Huicpp
namespace Db

open Cxx Sql

/-- What the loader tells apart in a JSON document. -/
inductive Js where
  | string (s : Text)
  | array (elems : List Js)
  | object (members : List (Text × Js))
  | other
  deriving Repr

namespace Js

/-- `contains(key)`, and what `[key]` gives then. -/
def at? (key : Text) : Js → Option Js
  | .object members => (members.find? fun m => m.1 = key).map Prod.snd
  | _ => none

end Js

def keyDbs : Text := "dbs".toList.map charByte
def keyDbType : Text := "dbtype".toList.map charByte
def keyDbName : Text := "dbname".toList.map charByte
def keyDbPath : Text := "dbpath".toList.map charByte
def sqliteType : Text := "SQLITE".toList.map charByte

/-- How a call ends. A member that is no string is not converted to one: `type_error` is thrown. -/
inductive Ended where
  | ret (r : HRet)
  | typeError
  deriving DecidableEq, Repr

abbrev Conn := Nat

/-- `db_conns_map`. The order of the names does not show. -/
abbrev ConnsMap := List (Text × List Conn)

/-- `added` are the calls of `AddConn`, and `lost` the connections that did not connect. -/
structure DbConnConfig where
  m_db_conns : ConnsMap
  heap : Resources Conn
  added : List (Text × Conn)
  lost : List Conn

/-- `new HSqliteConnection()` and its `Connect`. -/
structure ConnAnswer where
  ptr : Conn
  connected : Bool
  deriving DecidableEq, Repr

namespace DbConnConfig

def init : DbConnConfig := ⟨[], .start, [], []⟩

def insertConn (str : Text) (ptr : Conn) : ConnsMap → ConnsMap
  | [] => [(str, [ptr])]
  | (name, conns) :: m =>
    if name = str then (name, conns ++ [ptr]) :: m else (name, conns) :: insertConn str ptr m

def addConn (c : DbConnConfig) (str : Text) (ptr : Conn) : DbConnConfig :=
  { c with m_db_conns := insertConn str ptr c.m_db_conns, added := c.added ++ [(str, ptr)] }

def find (m : ConnsMap) (str : Text) : Option (List Conn) :=
  (m.find? fun e => e.1 = str).map Prod.snd

def getConn (c : DbConnConfig) (strName : Text) (index : Nat) : Except HRet Conn :=
  match find c.m_db_conns strName with
  | none => .error .invlPara
  | some conns =>
    match conns[index]? with
    | none => .error .invlPara
    | some ptr => .ok ptr

/-- `~DbConnConfig()` -/
def destroy (c : DbConnConfig) : Resources Conn := c.heap.closeAll (c.m_db_conns.flatMap Prod.snd)

/-- The loop over `jj`. -/
def connectAll (strDbName : Text) : List ConnAnswer → DbConnConfig → HRet × DbConnConfig
  | [], c => (.ok, c)
  | a :: answers, c =>
    let c := { c with heap := c.heap.obtain a.ptr }
    if a.connected then connectAll strDbName answers (c.addConn strDbName a.ptr)
    else (.depError, { c with lost := a.ptr :: c.lost })

/-- One entry of `dbs`. -/
def initItem (db_item : Js) (answers : List ConnAnswer) (c : DbConnConfig) : Ended × DbConnConfig :=
  match db_item.at? keyDbType with
  | none => (.ret .invlPara, c)
  | some (.string strType) =>
    match db_item.at? keyDbName with
    | none => (.ret .invlPara, c)
    | some (.string strDbName) =>
      if strType = sqliteType then
        match db_item.at? keyDbPath with
        | none => (.ret .invlPara, c)
        | some (.string _) =>
          let (r, c) := connectAll strDbName answers c
          (.ret r, c)
        | some _ => (.typeError, c)
      else (.ret .invlPara, c)
    | some _ => (.typeError, c)
  | some _ => (.typeError, c)

/-- The loop over the entries. Each one has its answers. -/
def initItems : List (Js × List ConnAnswer) → DbConnConfig → Ended × DbConnConfig
  | [], c => (.ret .ok, c)
  | (db_item, answers) :: items, c =>
    match initItem db_item answers c with
    | (.ret .ok, c) => initItems items c
    | (e, c) => (e, c)

/-- Each entry makes `conn_count` connections, the first one number `k` of the load. -/
def share (conn_count : Nat) (answers : Nat → ConnAnswer) :
    Nat → List Js → List (Js × List ConnAnswer)
  | _, [] => []
  | k, item :: items =>
    (item, (List.range conn_count).map fun jj => answers (k + jj)) ::
      share conn_count answers (k + conn_count) items

def minDbCount : Nat := 1

/-- `InitFromConfigFile(strFileName, conn_count)`, with what reading the file gives. -/
def initFromConfigFile (strFileName : Text) (file : Option Text) (parse : Text → Option Js)
    (conn_count : Nat) (answers : Nat → ConnAnswer) (c : DbConnConfig) : Ended × DbConnConfig :=
  if strFileName = [] then (.ret .invlPara, c)
  else match file with
    | none => (.ret .errStatus, c)
    | some strDbConfig =>
      match parse strDbConfig with
      | none => (.ret .invlPara, c)
      | some config_js =>
        match config_js.at? keyDbs with
        | some (.array db_js) => initItems (share (max conn_count minDbCount) answers 0 db_js) c
        | _ => (.ret .invlPara, c)

/-! ## Runs -/

inductive ConnAction where
  | initFromConfigFile (strFileName : Text) (file : Option Text) (conn_count : Nat)
      (answers : Nat → ConnAnswer)
  | addConn (str : Text) (ptr : Conn)

/-- The allocator gives addresses that are not in use. A pointer that a caller adds is one of a connection
that is there, or of a new one. -/
inductive ConnStep (parse : Text → Option Js) (c : DbConnConfig) : ConnAction → DbConnConfig → Prop where
  | initFromConfigFile (strFileName : Text) (file : Option Text) (conn_count : Nat)
      (answers : Nat → ConnAnswer) : Function.Injective (fun n => (answers n).ptr) →
      (∀ n, (answers n).ptr ∉ c.heap.opened) →
      ConnStep parse c (.initFromConfigFile strFileName file conn_count answers)
        (c.initFromConfigFile strFileName file parse conn_count answers).2
  | addConn (str : Text) (ptr : Conn) : ptr ∈ c.heap.opened →
      ConnStep parse c (.addConn str ptr) (c.addConn str ptr)
  | addNewConn (str : Text) (ptr : Conn) : ptr ∉ c.heap.opened →
      ConnStep parse c (.addConn str ptr) ({ c with heap := c.heap.obtain ptr }.addConn str ptr)

def connSystem (parse : Text → Option Js) : TransitionSystem DbConnConfig ConnAction where
  init c := c = init
  step := ConnStep parse

/-- The connections of a name, in the order in which they were added. -/
def addedTo (c : DbConnConfig) (strName : Text) : List Conn :=
  (c.added.filter fun e => e.1 = strName).map Prod.snd

structure Inv (c : DbConnConfig) : Prop where
  find : ∀ strName, find c.m_db_conns strName
    = if addedTo c strName = [] then none else some (addedTo c strName)
  perm : (c.m_db_conns.flatMap Prod.snd).Perm (c.added.map Prod.snd)
  right : c.heap.wrongClose = false
  nodup : c.heap.opened.Nodup
  opened : ∀ p, p ∈ c.heap.opened ↔ p ∈ c.added.map Prod.snd ∨ p ∈ c.lost

theorem find_insertConn (m : ConnsMap) (str strName : Text) (ptr : Conn) :
    find (insertConn str ptr m) strName
      = if str = strName then some ((find m strName).getD [] ++ [ptr]) else find m strName := by
  induction m with
  | nil =>
    by_cases h : str = strName
    · simp [insertConn, find, h]
    · simp [insertConn, find, h]
  | cons e m ih =>
    obtain ⟨name, conns⟩ := e
    simp only [find] at ih ⊢
    rw [insertConn]
    by_cases hname : name = str
    · subst hname
      by_cases h : name = strName
      · simp [h]
      · simp [h]
    · rw [if_neg hname]
      by_cases h : name = strName
      · have hstr : str ≠ strName := fun hs => hname (h.trans hs.symm)
        simp [h, hstr]
      · simpa [List.find?_cons, h] using ih

theorem perm_insertConn (m : ConnsMap) (str : Text) (ptr : Conn) :
    ((insertConn str ptr m).flatMap Prod.snd).Perm (m.flatMap Prod.snd ++ [ptr]) := by
  induction m with
  | nil => simp [insertConn]
  | cons e m ih =>
    obtain ⟨name, conns⟩ := e
    rw [insertConn]
    split
    · simp only [List.flatMap_cons, List.append_assoc]
      exact (List.perm_append_comm).append_left conns
    · simp only [List.flatMap_cons, List.append_assoc]
      exact ih.append_left conns

theorem addedTo_addConn (c : DbConnConfig) (str strName : Text) (ptr : Conn) :
    addedTo (c.addConn str ptr) strName
      = if str = strName then addedTo c strName ++ [ptr] else addedTo c strName := by
  by_cases h : str = strName
  · simp [addedTo, addConn, h]
  · simp [addedTo, addConn, h]

/-! ## What every call keeps -/

/-- A new connection is added. -/
def addNew (c : DbConnConfig) (str : Text) (ptr : Conn) : DbConnConfig :=
  { c with heap := c.heap.obtain ptr }.addConn str ptr

/-- A new connection does not connect. -/
def loseNew (c : DbConnConfig) (ptr : Conn) : DbConnConfig :=
  { c with heap := c.heap.obtain ptr, lost := ptr :: c.lost }

/-- Kept by both. -/
structure Keeps (P : DbConnConfig → Prop) : Prop where
  addNew : ∀ c str ptr, P c → ptr ∉ c.heap.opened → P (c.addNew str ptr)
  loseNew : ∀ c ptr, P c → ptr ∉ c.heap.opened → P (c.loseNew ptr)

/-- The answers are about new connections. -/
structure Fresh (answers : List ConnAnswer) (c : DbConnConfig) : Prop where
  nodup : (answers.map ConnAnswer.ptr).Nodup
  new : ∀ a ∈ answers, a.ptr ∉ c.heap.opened

/-- No connection is there that was not there before or is one of the answers. -/
def Within (answers : List ConnAnswer) (c c' : DbConnConfig) : Prop :=
  ∀ p ∈ c'.heap.opened, p ∈ c.heap.opened ∨ p ∈ answers.map ConnAnswer.ptr

section Keep

variable {P : DbConnConfig → Prop} (hP : Keeps P)
include hP

theorem connectAll_keeps (strDbName : Text) {answers : List ConnAnswer} {c : DbConnConfig} (hc : P c)
    (hf : Fresh answers c) :
    P (connectAll strDbName answers c).2 ∧ Within answers c (connectAll strDbName answers c).2 := by
  induction answers generalizing c with
  | nil => exact ⟨hc, fun p hp => .inl hp⟩
  | cons a answers ih =>
    obtain ⟨hnot, hnodup⟩ := List.nodup_cons.mp hf.nodup
    have hnew := hf.new a List.mem_cons_self
    rw [connectAll]
    split
    · have hfresh : Fresh answers (c.addNew strDbName a.ptr) := by
        refine ⟨hnodup, fun b hb hopen => ?_⟩
        rcases List.mem_cons.mp hopen with heq | hopen
        · exact hnot (heq ▸ List.mem_map_of_mem hb)
        · exact hf.new b (List.mem_cons_of_mem a hb) hopen
      obtain ⟨hkept, hwithin⟩ := ih (hP.addNew c strDbName a.ptr hc hnew) hfresh
      refine ⟨hkept, fun p hp => ?_⟩
      rcases hwithin p hp with hp | hp
      · rcases List.mem_cons.mp hp with rfl | hp
        · exact .inr List.mem_cons_self
        · exact .inl hp
      · exact .inr (List.mem_cons_of_mem _ hp)
    · refine ⟨hP.loseNew c a.ptr hc hnew, fun p hp => ?_⟩
      rcases List.mem_cons.mp hp with rfl | hp
      · exact .inr List.mem_cons_self
      · exact .inl hp

omit hP in
/-- An entry connects with its answers, or adds nothing. -/
theorem initItem_cases (db_item : Js) (answers : List ConnAnswer) (c : DbConnConfig) :
    (initItem db_item answers c).2 = c ∨
      ∃ strDbName, initItem db_item answers c =
        (.ret (connectAll strDbName answers c).1, (connectAll strDbName answers c).2) := by
  unfold initItem
  split
  · exact .inl rfl
  · split
    · exact .inl rfl
    · split
      · split
        · exact .inl rfl
        · exact .inr ⟨_, rfl⟩
        · exact .inl rfl
      · exact .inl rfl
    · exact .inl rfl
  · exact .inl rfl

theorem initItem_keeps (db_item : Js) {answers : List ConnAnswer} {c : DbConnConfig} (hc : P c)
    (hf : Fresh answers c) :
    P (initItem db_item answers c).2 ∧ Within answers c (initItem db_item answers c).2 := by
  rcases initItem_cases db_item answers c with h | ⟨strDbName, h⟩
  · rw [h]
    exact ⟨hc, fun p hp => .inl hp⟩
  · rw [h]
    exact connectAll_keeps hP strDbName hc hf

theorem initItems_keeps (conn_count : Nat) (db_js : List Js) {answers : Nat → ConnAnswer} {k : Nat}
    {c : DbConnConfig} (hc : P c) (hinj : Function.Injective fun n => (answers n).ptr)
    (hnew : ∀ n, k ≤ n → (answers n).ptr ∉ c.heap.opened) :
    P (initItems (share conn_count answers k db_js) c).2 := by
  induction db_js generalizing k c with
  | nil => exact hc
  | cons item items ih =>
    have hfresh : Fresh ((List.range conn_count).map fun jj => answers (k + jj)) c := by
      refine ⟨?_, fun a ha => ?_⟩
      · rw [List.map_map]
        exact List.nodup_range.map fun i j hij => Nat.add_left_cancel (hinj hij)
      · obtain ⟨jj, -, rfl⟩ := List.mem_map.mp ha
        exact hnew _ (Nat.le_add_right k jj)
    obtain ⟨hkept, hwithin⟩ := initItem_keeps hP item hc hfresh
    rw [share, initItems]
    split
    · rename_i c' heq
      rw [heq] at hkept hwithin
      refine ih hkept fun n hn hopen => ?_
      rcases hwithin _ hopen with hopen | hmem
      · exact hnew n (by omega) hopen
      · -- the connections of this entry have smaller numbers
        rw [List.map_map] at hmem
        obtain ⟨jj, hjj, heq⟩ := List.mem_map.mp hmem
        have hlt := List.mem_range.mp hjj
        have hsame : k + jj = n := hinj heq
        omega
    · rename_i heq
      rw [heq] at hkept
      exact hkept

theorem initFromConfigFile_keeps (strFileName : Text) (file : Option Text) (parse : Text → Option Js)
    (conn_count : Nat) {answers : Nat → ConnAnswer} {c : DbConnConfig} (hc : P c)
    (hinj : Function.Injective fun n => (answers n).ptr)
    (hnew : ∀ n, (answers n).ptr ∉ c.heap.opened) :
    P (c.initFromConfigFile strFileName file parse conn_count answers).2 := by
  unfold initFromConfigFile
  split
  · exact hc
  · split
    · exact hc
    · split
      · exact hc
      · split
        · exact initItems_keeps hP _ _ hc hinj fun n _ => hnew n
        · exact hc

end Keep

/-! ## The invariant -/

theorem inv_init : Inv init where
  find _ := rfl
  perm := .nil
  right := rfl
  nodup := .nil
  opened p := by simp [init, Resources.start]

theorem Inv.addConn {c : DbConnConfig} {heap : Resources Conn} (h : Inv c) (str : Text) {ptr : Conn}
    (hwrong : heap.wrongClose = false) (hnodup : heap.opened.Nodup)
    (hopen : ∀ p, p ∈ heap.opened ↔ p ∈ c.heap.opened ∨ p = ptr) :
    Inv ({ c with heap := heap }.addConn str ptr) where
  find strName := by
    rw [addedTo_addConn]
    show DbConnConfig.find (insertConn str ptr c.m_db_conns) strName = _
    rw [find_insertConn, h.find strName]
    by_cases hstr : str = strName
    · have hsame : addedTo { c with heap := heap } strName = addedTo c strName := rfl
      rw [if_pos hstr, if_pos hstr, hsame, if_neg (List.append_ne_nil_of_right_ne_nil _ (by simp))]
      split
      · rename_i hnil
        rw [hnil]
        rfl
      · rfl
    · rw [if_neg hstr, if_neg hstr]
      rfl
  perm := by
    show ((insertConn str ptr c.m_db_conns).flatMap Prod.snd).Perm ((c.added ++ [(str, ptr)]).map Prod.snd)
    rw [List.map_append]
    exact (perm_insertConn _ _ _).trans (h.perm.append_right _)
  right := hwrong
  nodup := hnodup
  opened p := by
    show p ∈ heap.opened ↔ p ∈ (c.added ++ [(str, ptr)]).map Prod.snd ∨ p ∈ c.lost
    rw [hopen, h.opened, List.map_append, List.mem_append]
    simp only [List.map_cons, List.map_nil, List.mem_singleton]
    tauto

theorem Inv.addNew {c : DbConnConfig} (h : Inv c) (str : Text) {ptr : Conn}
    (hnew : ptr ∉ c.heap.opened) : Inv (c.addNew str ptr) := by
  refine h.addConn str h.right (List.nodup_cons.mpr ⟨hnew, h.nodup⟩) fun p => ?_
  rw [Resources.obtain_opened, List.mem_cons]
  tauto

theorem Inv.addOld {c : DbConnConfig} (h : Inv c) (str : Text) {ptr : Conn}
    (hold : ptr ∈ c.heap.opened) : Inv (c.addConn str ptr) := by
  refine h.addConn str h.right h.nodup fun p => ?_
  constructor
  · exact .inl
  · rintro (hp | rfl)
    · exact hp
    · exact hold

theorem Inv.loseNew {c : DbConnConfig} (h : Inv c) {ptr : Conn} (hnew : ptr ∉ c.heap.opened) :
    Inv (c.loseNew ptr) where
  find strName := h.find strName
  perm := h.perm
  right := h.right
  nodup := List.nodup_cons.mpr ⟨hnew, h.nodup⟩
  opened p := by
    show p ∈ ptr :: c.heap.opened ↔ p ∈ c.added.map Prod.snd ∨ p ∈ ptr :: c.lost
    rw [List.mem_cons, List.mem_cons, h.opened]
    tauto

theorem inv_keeps : Keeps Inv := ⟨fun _ str _ h hnew => h.addNew str hnew, fun _ _ h hnew => h.loseNew hnew⟩

/-- No connection was added twice, or added and lost. -/
def Distinct (c : DbConnConfig) : Prop := Inv c ∧ (c.added.map Prod.snd ++ c.lost).Nodup

theorem Distinct.addNew {c : DbConnConfig} (h : Distinct c) (str : Text) {ptr : Conn}
    (hnew : ptr ∉ c.heap.opened) : Distinct (c.addNew str ptr) := by
  refine ⟨h.1.addNew str hnew, ?_⟩
  have hnot : ptr ∉ c.added.map Prod.snd ++ c.lost :=
    fun hmem => hnew ((h.1.opened ptr).mpr (List.mem_append.mp hmem))
  show ((c.added ++ [(str, ptr)]).map Prod.snd ++ c.lost).Nodup
  rw [List.map_append, List.append_assoc]
  exact List.nodup_middle.mpr (List.nodup_cons.mpr ⟨hnot, h.2⟩)

theorem Distinct.loseNew {c : DbConnConfig} (h : Distinct c) {ptr : Conn}
    (hnew : ptr ∉ c.heap.opened) : Distinct (c.loseNew ptr) := by
  refine ⟨h.1.loseNew hnew, ?_⟩
  have hnot : ptr ∉ c.added.map Prod.snd ++ c.lost :=
    fun hmem => hnew ((h.1.opened ptr).mpr (List.mem_append.mp hmem))
  exact List.nodup_middle.mpr (List.nodup_cons.mpr ⟨hnot, h.2⟩)

theorem distinct_keeps : Keeps Distinct :=
  ⟨fun _ str _ h hnew => h.addNew str hnew, fun _ _ h hnew => h.loseNew hnew⟩

/-- Callers add new connections only. -/
def AddsNew (c : DbConnConfig) (a : ConnAction) (_ : DbConnConfig) : Prop :=
  ∀ str ptr, a = .addConn str ptr → ptr ∉ c.heap.opened

variable {parse : Text → Option Js} {tr : List ConnAction} {c : DbConnConfig}

theorem inv_run (h : (connSystem parse).Run tr c) : Inv c := by
  refine h.invariant (fun _ c => Inv c) ?_ ?_
  · rintro c rfl
    exact inv_init
  · intro _ c a c' hc hs
    cases hs with
    | initFromConfigFile strFileName file conn_count answers hinj hnew =>
      exact initFromConfigFile_keeps inv_keeps _ _ _ _ hc hinj hnew
    | addConn str ptr hold => exact hc.addOld str hold
    | addNewConn str ptr hnew => exact hc.addNew str hnew

theorem distinct_run (h : ((connSystem parse).restrict AddsNew).Run tr c) : Distinct c := by
  refine h.invariant (fun _ c => Distinct c) ?_ ?_
  · rintro c rfl
    exact ⟨inv_init, .nil⟩
  · rintro _ c a c' hc ⟨hs, hadds⟩
    cases hs with
    | initFromConfigFile strFileName file conn_count answers hinj hnew =>
      exact initFromConfigFile_keeps distinct_keeps _ _ _ _ hc hinj hnew
    | addConn str ptr hold => exact absurd hold (hadds str ptr rfl)
    | addNewConn str ptr hnew => exact hc.addNew str hnew

theorem Inv.getConn (h : Inv c) (strName : Text) (index : Nat) :
    c.getConn strName index =
      match (addedTo c strName)[index]? with
      | some ptr => .ok ptr
      | none => .error .invlPara := by
  rw [DbConnConfig.getConn, h.find strName]
  split
  · rename_i heq
    split at heq
    · rename_i hnil
      rw [hnil]
      rfl
    · cases heq
  · rename_i heq
    split at heq
    · cases heq
    · cases heq
      split
      · rename_i hnone
        rw [hnone]
      · rename_i hsome
        rw [hsome]

theorem Inv.destroy_nodup (h : Inv c) (hnodup : (c.added.map Prod.snd).Nodup) :
    c.destroy.wrongClose = false ∧
      ∀ p, p ∈ c.destroy.opened ↔ p ∈ c.heap.opened ∧ p ∉ c.added.map Prod.snd := by
  have hsub : ∀ p ∈ c.m_db_conns.flatMap Prod.snd, p ∈ c.heap.opened :=
    fun p hp => (h.opened p).mpr (.inl (h.perm.mem_iff.mp hp))
  obtain ⟨hwrong, hopen⟩ := Resources.closeAll_of_nodup h.nodup (h.perm.nodup_iff.mpr hnodup) hsub
  exact ⟨hwrong.trans h.right, fun p => (hopen p).trans (and_congr_right' (not_congr h.perm.mem_iff))⟩

theorem Inv.destroy_added (h : Inv c) : ∀ p ∈ c.added.map Prod.snd,
    p ∈ c.heap.opened ∧ p ∉ c.destroy.opened := by
  intro p hp
  exact ⟨(h.opened p).mpr (.inl hp), Resources.closed_of_mem h.nodup (h.perm.mem_iff.mpr hp)⟩

theorem Inv.destroy_iff (h : Inv c) : c.destroy.wrongClose = false ↔ (c.added.map Prod.snd).Nodup := by
  constructor
  · intro hwrong
    by_contra hdup
    have htrue := Resources.closeAll_of_not_nodup h.nodup fun hn => hdup (h.perm.nodup_iff.mp hn)
    rw [destroy] at hwrong
    rw [hwrong] at htrue
    cases htrue
  · exact fun hnodup => (h.destroy_nodup hnodup).1

/-- **The registry of connections.** In every run of loads, whatever is in the files and whichever
connections connect, and of `AddConn`: `GetConn` finds the connections of a name in the order in which they
were added, and throws for every other index. The destructor deletes each connection that was added, and
each once exactly if none was added twice. If callers add new connections only, then this is so, and what it does not delete are
those that did not connect. -/
theorem conns_found (h : (connSystem parse).Run tr c) :
    (∀ strName index, c.getConn strName index =
      match (addedTo c strName)[index]? with
      | some ptr => .ok ptr
      | none => .error .invlPara) ∧
    (∀ p ∈ c.added.map Prod.snd, p ∈ c.heap.opened ∧ p ∉ c.destroy.opened) ∧
    (c.destroy.wrongClose = false ↔ (c.added.map Prod.snd).Nodup) ∧
    (((connSystem parse).restrict AddsNew).Run tr c →
      c.destroy.wrongClose = false ∧ ∀ p, p ∈ c.destroy.opened ↔ p ∈ c.lost) := by
  have hinv := inv_run h
  refine ⟨hinv.getConn, hinv.destroy_added, hinv.destroy_iff, fun hadds => ?_⟩
  have hdistinct := List.nodup_append.mp (distinct_run hadds).2
  obtain ⟨hwrong, hopen⟩ := hinv.destroy_nodup hdistinct.1
  refine ⟨hwrong, fun p => ?_⟩
  rw [hopen, hinv.opened]
  constructor
  · rintro ⟨hp | hp, hnot⟩
    · exact absurd hp hnot
    · exact hp
  · exact fun hp => ⟨.inr hp, fun hadd => hdistinct.2.2 p hadd p hp rfl⟩

/-- Two new connections of one name; and the first is added once more. -/
theorem conns_found_twice :
    (∃ tr c, (connSystem fun _ => none).Run tr c ∧ c.getConn [1] 1 = .ok 8 ∧
      c.getConn [1] 2 = .error .invlPara ∧ c.destroy.wrongClose = false ∧ ∀ p, p ∉ c.destroy.opened) ∧
    ∃ tr c, (connSystem fun _ => none).Run tr c ∧ c.getConn [1] 2 = .ok 7 ∧
      7 ∉ c.destroy.opened ∧ 8 ∉ c.destroy.opened ∧ c.destroy.wrongClose = true := by
  have h0 : ((connSystem fun _ => none).restrict AddsNew).Run [] init := .init rfl
  have h1 := h0.step ⟨ConnStep.addNewConn [1] 7 (by decide), by rintro _ _ ⟨⟩; decide⟩
  have h2 := h1.step ⟨ConnStep.addNewConn [1] 8 (by decide), by rintro _ _ ⟨⟩; decide⟩
  have h3 := h2.of_restrict.step (ConnStep.addConn [1] 7 (by decide))
  obtain ⟨hget, -, -, hadds⟩ := conns_found h2.of_restrict
  obtain ⟨hright, hleft⟩ := hadds h2
  obtain ⟨hget', hadded, honce, -⟩ := conns_found h3
  constructor
  · exact ⟨_, _, h2.of_restrict, hget [1] 1, hget [1] 2, hright,
      fun p hp => List.not_mem_nil ((hleft p).mp hp)⟩
  · refine ⟨_, _, h3, hget' [1] 2, (hadded 7 (by decide)).2, (hadded 8 (by decide)).2, ?_⟩
    exact Bool.eq_true_of_not_eq_false fun hright => absurd (honce.mp hright) (by decide)

/-! ## A good file -/

/-- The name that an entry gives to its connections. -/
def sqliteName (db_item : Js) : Option Text :=
  match db_item.at? keyDbType, db_item.at? keyDbName, db_item.at? keyDbPath with
  | some (.string strType), some (.string strDbName), some (.string _) =>
    if strType = sqliteType then some strDbName else none
  | _, _, _ => none

theorem connectAll_ok_iff (strDbName : Text) (answers : List ConnAnswer) (c : DbConnConfig) :
    (connectAll strDbName answers c).1 = .ok ↔ ∀ a ∈ answers, a.connected = true := by
  induction answers generalizing c with
  | nil => simp [connectAll]
  | cons a answers ih =>
    rw [connectAll, List.forall_mem_cons]
    split
    · rename_i hconn
      rw [ih, and_iff_right hconn]
    · rename_i hconn
      exact ⟨nofun, fun h => absurd h.1 hconn⟩

theorem connectAll_added {strDbName : Text} {answers : List ConnAnswer} {c : DbConnConfig}
    (h : ∀ a ∈ answers, a.connected = true) :
    (connectAll strDbName answers c).2.added
      = c.added ++ answers.map fun a => (strDbName, a.ptr) := by
  induction answers generalizing c with
  | nil => simp [connectAll]
  | cons a answers ih =>
    obtain ⟨ha, hrest⟩ := List.forall_mem_cons.mp h
    simp only [connectAll, if_pos ha]
    rw [ih hrest, List.map_cons]
    exact List.append_assoc c.added [(strDbName, a.ptr)] _

theorem initItem_eq (db_item : Js) (answers : List ConnAnswer) (c : DbConnConfig) :
    match sqliteName db_item with
    | some strDbName => initItem db_item answers c =
        (.ret (connectAll strDbName answers c).1, (connectAll strDbName answers c).2)
    | none => (initItem db_item answers c).1 ≠ .ret .ok := by
  unfold sqliteName initItem
  cases db_item.at? keyDbType with
  | none => exact nofun
  | some t =>
    cases t with
    | string strType =>
      cases db_item.at? keyDbName with
      | none => exact nofun
      | some n =>
        cases n with
        | string strDbName =>
          by_cases htype : strType = sqliteType
          · cases db_item.at? keyDbPath with
            | none => simp [htype]
            | some p => cases p <;> simp [htype]
          · cases db_item.at? keyDbPath with
            | none => simp [htype]
            | some p => cases p <;> simp [htype]
        | _ => exact nofun
    | _ => exact nofun

theorem initItems_bad {db_item : Js} {answers : List ConnAnswer} {c : DbConnConfig}
    (items : List (Js × List ConnAnswer)) (h : (initItem db_item answers c).1 ≠ .ret .ok) :
    initItems ((db_item, answers) :: items) c = initItem db_item answers c := by
  rw [initItems]
  generalize initItem db_item answers c = result at h ⊢
  obtain ⟨e, c'⟩ := result
  cases e with
  | typeError => rfl
  | ret r =>
    cases r with
    | ok => exact absurd rfl h
    | _ => rfl

/-- A load succeeds exactly if every entry has a name and everything connects. Then each entry has added its
connections, in order. -/
theorem init_ok_iff (items : List (Js × List ConnAnswer)) (c : DbConnConfig) :
    ((initItems items c).1 = .ret .ok ↔
      ∀ e ∈ items, (sqliteName e.1).isSome ∧ ∀ a ∈ e.2, a.connected = true) ∧
    ((initItems items c).1 = .ret .ok → (initItems items c).2.added
      = c.added ++ items.flatMap fun e => e.2.map fun a => ((sqliteName e.1).getD [], a.ptr)) := by
  induction items generalizing c with
  | nil => simp [initItems]
  | cons e items ih =>
    obtain ⟨db_item, answers⟩ := e
    have hitem := initItem_eq db_item answers c
    rw [List.forall_mem_cons]
    cases hname : sqliteName db_item with
    | none =>
      rw [hname] at hitem
      rw [initItems_bad items hitem]
      refine ⟨⟨fun h => absurd h hitem, fun h => ?_⟩, fun h => absurd h hitem⟩
      cases h.1.1
    | some strDbName =>
      rw [hname] at hitem
      have hok := connectAll_ok_iff strDbName answers c
      by_cases hconn : ∀ a ∈ answers, a.connected = true
      · have hstep : initItems ((db_item, answers) :: items) c
            = initItems items (connectAll strDbName answers c).2 := by
          rw [initItems, hitem, hok.mpr hconn]
        obtain ⟨ih1, ih2⟩ := ih (connectAll strDbName answers c).2
        rw [hstep]
        refine ⟨ih1.trans ⟨fun h => ⟨⟨rfl, hconn⟩, h⟩, And.right⟩, fun h => ?_⟩
        rw [ih2 h, connectAll_added hconn, List.flatMap_cons, List.append_assoc, hname]
        rfl
      · have hbad : (initItem db_item answers c).1 ≠ .ret .ok := by
          rw [hitem]
          exact fun h => hconn (hok.mp (Ended.ret.inj h))
        rw [initItems_bad items hbad]
        exact ⟨⟨fun h => absurd h hbad, fun h => absurd h.1.2 hconn⟩, fun h => absurd h hbad⟩

end DbConnConfig

end Db
end Huicpp
