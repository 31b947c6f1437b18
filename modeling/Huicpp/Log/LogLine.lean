import Mathlib
import Huicpp.Cxx.CString
import Huicpp.Time.FromStr

/-!
# Log.LogLine

The text that `LogMessage::GetLogMessage` makes of a message, and how it is read. In front of the message
are fields in brackets, behind it are the file and the line in brackets. `std::oct` is set on the stream
before the message, and the line is printed behind it: it is an octal number.

* `readLine_getLogMessage`: the fields and the message are found again, whatever is in the message.
* `log_readBack`: a log of any number of messages.
-/

namespace Huicpp
namespace Log

open Cxx

/-- `LogPriority::PriorityValue`, below `END`. -/
inductive PriorityValue where
  | INFO
  | WARNING
  | ERROR
  deriving DecidableEq, Repr

/-- `LOG_PRIORITY_NAMES` -/
def getLogPriority : PriorityValue → List Byte
  | .INFO => "INFO".toList.map charByte
  | .WARNING => "WARN".toList.map charByte
  | .ERROR => "ERROR".toList.map charByte

/-- A message with all that its line is made of: the local time and the microseconds of `m_time`, what
`HGetPid` returns, and the thread. -/
structure Message where
  m_logvalue : PriorityValue
  tm : Time.Tm
  tv_usec : Nat
  pid : Nat
  thread : BitVec 32
  m_message : List Byte
  m_filename : List Byte
  m_lineno : BitVec 32

/-- `std::setw(w) << n`, with fill character `0`. -/
def setw (w : Nat) (n : Int) : List Byte :=
  List.replicate (w - (decimalInt n).length) (charByte '0') ++ decimalInt n

/-- `HMicroTime::GetTimeStr` -/
def getTimeStr (tm : Time.Tm) (tv_usec : Nat) : List Byte :=
  decimalInt (1900 + tm.tm_year) ++ charByte '-' :: (setw 2 (1 + tm.tm_mon) ++ charByte '-' ::
    (setw 2 tm.tm_mday ++ charByte ' ' :: (setw 2 tm.tm_hour ++ charByte ':' :: (setw 2 tm.tm_min
      ++ charByte ':' :: (setw 2 tm.tm_sec ++ charByte ',' :: setw 3 ((tv_usec / 1000 : Nat) : Int))))))

/-- The digit of a number below 16. -/
def digitChar (d : Nat) : Byte := BitVec.ofNat 8 (if d < 10 then 48 + d else 87 + d)

/-- A number to a base of 16 at most. -/
def inBase (base n : Nat) : List Byte :=
  if n = 0 then [digitChar 0] else ((Nat.digits base n).map digitChar).reverse

/-- `HThread::CurrentThreadHexIdStr` -/
def currentThreadHexIdStr (thread : BitVec 32) : List Byte := inBase 16 thread.toNat

/-- `oss << m_lineno` with `std::oct`: an `int` is printed as what it is without a sign. -/
def octalLine (m_lineno : BitVec 32) : List Byte := inBase 8 m_lineno.toNat

def lbracket : Byte := charByte '['

def rbracket : Byte := charByte ']'

def colon : Byte := charByte ':'

def newline : Byte := charByte '\n'

namespace Message

variable (m : Message)

/-- What is printed in the brackets in front of the message. -/
def front : List (List Byte) :=
  [getTimeStr m.tm m.tv_usec, getLogPriority m.m_logvalue, decimal m.pid, currentThreadHexIdStr m.thread]

/-- The line, without the character that ends it. -/
def line : List Byte :=
  m.front.flatMap (fun field => lbracket :: (field ++ [rbracket])) ++ m.m_message
    ++ if m.m_filename = [] then [] else lbracket :: (m.m_filename ++ colon :: (octalLine m.m_lineno ++ [rbracket]))

def getLogMessage : List Byte := m.line ++ [newline]

end Message

/-! ## Reading -/

/-- What a reader finds in a line. -/
structure LineFields where
  front : List (List Byte)
  message : List Byte
  filename : List Byte
  lineno : List Byte
  deriving DecidableEq, Repr

/-- A field in brackets, and what is behind it. -/
def readField : List Byte → Option (List Byte × List Byte)
  | [] => none
  | c :: s =>
    if c = lbracket then
      match s.dropWhile (· ≠ rbracket) with
      | [] => none
      | _ :: rest => some (s.takeWhile (· ≠ rbracket), rest)
    else none

def readFields : Nat → List Byte → Option (List (List Byte) × List Byte)
  | 0, s => some ([], s)
  | n + 1, s => do
    let (field, s) ← readField s
    let (fields, s) ← readFields n s
    return (field :: fields, s)

/-- The message and what is in the last brackets, from the end on. -/
def readTail (s : List Byte) : Option (List Byte × List Byte × List Byte) :=
  match s.reverse with
  | [] => none
  | c :: s =>
    if c = rbracket then
      let lineno := s.takeWhile (· ≠ colon)
      match s.dropWhile (· ≠ colon) with
      | [] => none
      | _ :: s =>
        let filename := s.takeWhile (· ≠ lbracket)
        match s.dropWhile (· ≠ lbracket) with
        | [] => none
        | _ :: s => some (s.reverse, filename.reverse, lineno.reverse)
    else none

/-- A reader that knows how the text is made, of a message with a file. -/
def readLine (s : List Byte) : Option LineFields := do
  let (front, s) ← readFields 4 s
  let (message, filename, lineno) ← readTail s
  return ⟨front, message, filename, lineno⟩

/-! ## Characters -/

section Characters

variable {base n : Nat} {b : Byte}

theorem mem_inBase (hbase : 2 ≤ base) (h : b ∈ inBase base n) : ∃ d < base, b = digitChar d := by
  unfold inBase at h
  split at h
  · exact ⟨0, by omega, List.mem_singleton.mp h⟩
  · obtain ⟨d, hd, rfl⟩ := List.mem_map.mp (List.mem_reverse.mp h)
    exact ⟨d, Nat.digits_lt_base hbase hd, rfl⟩

/-- The characters that a field in brackets may have. -/
def IsFieldChar (b : Byte) : Prop := b ≠ rbracket ∧ b ≠ newline

instance (b : Byte) : Decidable (IsFieldChar b) := by
  unfold IsFieldChar
  infer_instance

theorem isFieldChar_digitChar : ∀ d < 16, IsFieldChar (digitChar d) := by decide

theorem isFieldChar_of_isDigit (h : isDigit b = true) : IsFieldChar b := by
  constructor
  · rintro rfl
    exact absurd h (by decide)
  · rintro rfl
    exact absurd h (by decide)

theorem isFieldChar_decimalInt (n : Int) : ∀ b ∈ decimalInt n, IsFieldChar b := by
  intro b hb
  unfold decimalInt at hb
  split at hb
  · rcases List.mem_cons.mp hb with rfl | hb
    · decide
    · exact isFieldChar_of_isDigit (isDigit_decimal b hb)
  · exact isFieldChar_of_isDigit (isDigit_decimal b hb)

theorem isFieldChar_setw (w : Nat) (n : Int) : ∀ b ∈ setw w n, IsFieldChar b := by
  intro b hb
  rcases List.mem_append.mp hb with hb | hb
  · rw [List.eq_of_mem_replicate hb]
    decide
  · exact isFieldChar_decimalInt n b hb

theorem isFieldChar_getTimeStr (tm : Time.Tm) (tv_usec : Nat) : ∀ b ∈ getTimeStr tm tv_usec, IsFieldChar b := by
  intro b hb
  simp only [getTimeStr, List.mem_append, List.mem_cons] at hb
  have hdash : IsFieldChar (charByte '-') := by decide
  have hcolon : IsFieldChar (charByte ':') := by decide
  rcases hb with hb | rfl | hb | rfl | hb | rfl | hb | rfl | hb | rfl | hb | rfl | hb
  · exact isFieldChar_decimalInt _ b hb
  · exact hdash
  · exact isFieldChar_setw _ _ b hb
  · exact hdash
  · exact isFieldChar_setw _ _ b hb
  · decide
  · exact isFieldChar_setw _ _ b hb
  · exact hcolon
  · exact isFieldChar_setw _ _ b hb
  · exact hcolon
  · exact isFieldChar_setw _ _ b hb
  · decide
  · exact isFieldChar_setw _ _ b hb

theorem isFieldChar_getLogPriority (value : PriorityValue) : ∀ b ∈ getLogPriority value, IsFieldChar b := by
  cases value <;> decide

theorem isFieldChar_front (m : Message) : ∀ field ∈ m.front, ∀ b ∈ field, IsFieldChar b := by
  intro field hfield b hb
  simp only [Message.front, List.mem_cons, List.not_mem_nil, or_false] at hfield
  rcases hfield with rfl | rfl | rfl | rfl
  · exact isFieldChar_getTimeStr _ _ b hb
  · exact isFieldChar_getLogPriority _ b hb
  · exact isFieldChar_of_isDigit (isDigit_decimal b hb)
  · obtain ⟨d, hd, rfl⟩ := mem_inBase (by decide) hb
    exact isFieldChar_digitChar d hd

theorem octalDigit_char : ∀ d < 8, digitChar d ≠ colon ∧ digitChar d ≠ newline := by decide

theorem octalLine_char (lineno : BitVec 32) :
    ∀ b ∈ octalLine lineno, b ≠ colon ∧ b ≠ newline := by
  intro b hb
  obtain ⟨d, hd, rfl⟩ := mem_inBase (by decide) hb
  exact octalDigit_char d hd

end Characters

/-! ## What a reader finds -/

section Reading

variable {s rest field message filename lineno : List Byte} {fields : List (List Byte)}

theorem takeWhile_ne_append {c : Byte} (h : ∀ b ∈ s, b ≠ c) :
    (s ++ c :: rest).takeWhile (· ≠ c) = s := by
  rw [List.takeWhile_append_of_pos (by simpa using h), List.takeWhile_cons_of_neg (by simp), List.append_nil]

theorem dropWhile_ne_append {c : Byte} (h : ∀ b ∈ s, b ≠ c) :
    (s ++ c :: rest).dropWhile (· ≠ c) = c :: rest := by
  rw [List.dropWhile_append_of_pos (by simpa using h), List.dropWhile_cons_of_neg (by simp)]

theorem readField_append (h : ∀ b ∈ field, b ≠ rbracket) :
    readField (lbracket :: (field ++ rbracket :: rest)) = some (field, rest) := by
  rw [readField, if_pos rfl, dropWhile_ne_append h, takeWhile_ne_append h]

theorem readFields_append (h : ∀ field ∈ fields, ∀ b ∈ field, b ≠ rbracket) :
    readFields fields.length (fields.flatMap (fun field => lbracket :: (field ++ [rbracket])) ++ rest)
      = some (fields, rest) := by
  induction fields with
  | nil => rfl
  | cons field fields ih =>
    have hfield := h field List.mem_cons_self
    have ih := ih fun f hf => h f (List.mem_cons_of_mem field hf)
    rw [List.length_cons, readFields, List.flatMap_cons, List.cons_append, List.cons_append,
      List.append_assoc, List.append_assoc, List.singleton_append, readField_append hfield,
      Option.bind_eq_bind, Option.bind_some]
    dsimp only
    rw [ih]
    rfl

/-- The last bracket is found from the end on: there is no `:` in a number and no `[` in the file's
name. -/
theorem readTail_append (hfile : ∀ b ∈ filename, b ≠ lbracket) (hline : ∀ b ∈ lineno, b ≠ colon) :
    readTail (message ++ lbracket :: (filename ++ colon :: (lineno ++ [rbracket])))
      = some (message, filename, lineno) := by
  have hreverse : (message ++ lbracket :: (filename ++ colon :: (lineno ++ [rbracket]))).reverse
      = rbracket :: (lineno.reverse ++ colon :: (filename.reverse ++ lbracket :: message.reverse)) := by
    simp
  have hline : ∀ b ∈ lineno.reverse, b ≠ colon := fun b hb => hline b (List.mem_reverse.mp hb)
  have hfile : ∀ b ∈ filename.reverse, b ≠ lbracket := fun b hb => hfile b (List.mem_reverse.mp hb)
  rw [readTail, hreverse]
  dsimp only
  rw [if_pos rfl, dropWhile_ne_append hline, takeWhile_ne_append hline]
  dsimp only
  rw [dropWhile_ne_append hfile, takeWhile_ne_append hfile]
  simp only [List.reverse_reverse]

end Reading

/-- A message of a named file, that takes one line. -/
structure Message.OneLine (m : Message) : Prop where
  named : m.m_filename ≠ []
  file : ∀ b ∈ m.m_filename, b ≠ lbracket ∧ b ≠ newline
  message : ∀ b ∈ m.m_message, b ≠ newline

/-- The fields are found whatever brackets the message has. -/
theorem readLine_getLogMessage {m : Message} (h : m.OneLine) :
    readLine m.line = some ⟨m.front, m.m_message, m.m_filename, octalLine m.m_lineno⟩ := by
  have hfront : readFields 4 m.line = some (m.front, m.m_message ++ lbracket ::
      (m.m_filename ++ colon :: (octalLine m.m_lineno ++ [rbracket]))) := by
    rw [Message.line, if_neg h.named, List.append_assoc]
    exact readFields_append fun field hfield b hb => (isFieldChar_front m field hfield b hb).1
  have htail : readTail (m.m_message ++ lbracket :: (m.m_filename ++ colon :: (octalLine m.m_lineno ++ [rbracket])))
      = some (m.m_message, m.m_filename, octalLine m.m_lineno) :=
    readTail_append (fun b hb => (h.file b hb).1) (fun b hb => (octalLine_char m.m_lineno b hb).1)
  rw [readLine, hfront, Option.bind_eq_bind, Option.bind_some]
  dsimp only
  rw [htail]
  rfl

theorem newline_not_mem_line {m : Message} (h : m.OneLine) : newline ∉ m.line := by
  intro hmem
  rw [Message.line, if_neg h.named, List.mem_append, List.mem_append, List.mem_flatMap] at hmem
  rcases hmem with (⟨field, hfield, hmem⟩ | hmem) | hmem
  · rcases List.mem_cons.mp hmem with hc | hmem
    · exact absurd hc (by decide)
    rcases List.mem_append.mp hmem with hmem | hmem
    · exact (isFieldChar_front m field hfield _ hmem).2 rfl
    · exact absurd (List.mem_singleton.mp hmem) (by decide)
  · exact h.message _ hmem rfl
  · rcases List.mem_cons.mp hmem with hc | hmem
    · exact absurd hc (by decide)
    rcases List.mem_append.mp hmem with hmem | hmem
    · exact (h.file _ hmem).2 rfl
    rcases List.mem_cons.mp hmem with hc | hmem
    · exact absurd hc (by decide)
    rcases List.mem_append.mp hmem with hmem | hmem
    · exact (octalLine_char m.m_lineno _ hmem).2 rfl
    · exact absurd (List.mem_singleton.mp hmem) (by decide)

/-! ## The line number -/

/-- What a text of octal digits stands for. -/
def octalNumber (ds : List Byte) : Nat := Nat.ofDigits 8 (ds.map digitValue).reverse

theorem digitValue_digitChar : ∀ d < 10, digitValue (digitChar d) = d := by decide

theorem map_digitValue_octalLine (lineno : BitVec 32) :
    ((octalLine lineno).map digitValue).reverse
      = if lineno.toNat = 0 then [0] else Nat.digits 8 lineno.toNat := by
  unfold octalLine inBase
  split
  · rfl
  · rw [List.map_reverse, List.reverse_reverse, List.map_map, List.map_congr_left, List.map_id]
    intro d hd
    have hlt : d < 8 := Nat.digits_lt_base (by decide) hd
    exact digitValue_digitChar d (by omega)

theorem octalNumber_octalLine (lineno : BitVec 32) : octalNumber (octalLine lineno) = lineno.toNat := by
  rw [octalNumber, map_digitValue_octalLine]
  split
  · next hzero => rw [hzero]; rfl
  · exact Nat.ofDigits_digits 8 _

/-- The digits of a number to base 8 stand for more in base 10, from 8 on. -/
theorem ofDigits_digits_eq_iff (n : Nat) : Nat.ofDigits 10 (Nat.digits 8 n) = n ↔ n < 8 := by
  constructor
  · intro h
    by_contra hge
    have hdigits : Nat.digits 8 n = n % 8 :: Nat.digits 8 (n / 8) :=
      Nat.digits_def' (by decide) (by omega)
    have hrest : n / 8 ≤ Nat.ofDigits 10 (Nat.digits 8 (n / 8)) :=
      calc n / 8 = Nat.ofDigits 8 (Nat.digits 8 (n / 8)) := (Nat.ofDigits_digits 8 _).symm
        _ ≤ Nat.ofDigits 10 (Nat.digits 8 (n / 8)) := Nat.ofDigits_monotone _ (by decide)
    rw [hdigits, Nat.ofDigits_cons] at h
    have hmod := Nat.div_add_mod n 8
    omega
  · intro h
    interval_cases n <;> rfl

theorem number_octalLine_iff (lineno : BitVec 32) :
    number (octalLine lineno) = lineno.toNat ↔ lineno.toNat < 8 := by
  rw [number, map_digitValue_octalLine]
  split
  · next hzero => rw [hzero]; decide
  · exact ofDigits_digits_eq_iff _

/-! ## A log -/

theorem splitOn_log {ms : List Message} (h : ∀ m ∈ ms, m.OneLine) :
    (ms.flatMap Message.getLogMessage).splitOn newline = ms.map Message.line ++ [[]] := by
  induction ms with
  | nil => rfl
  | cons m ms ih =>
    have hm := newline_not_mem_line (h m List.mem_cons_self)
    rw [List.flatMap_cons, Message.getLogMessage, List.append_assoc, List.singleton_append,
      List.splitOn_append_cons_self_of_not_mem hm, ih fun m' hm' => h m' (List.mem_cons_of_mem m hm')]
    rfl

/-- A log of any number of messages is read back line by line, whatever brackets the messages have. The
line numbers are right as octal numbers; as decimal ones those below 8 are. -/
theorem log_readBack (ms : List Message) (h : ∀ m ∈ ms, m.OneLine) :
    ((ms.flatMap Message.getLogMessage).splitOn newline).dropLast.map readLine
        = ms.map (fun m => some ⟨m.front, m.m_message, m.m_filename, octalLine m.m_lineno⟩)
      ∧ ∀ m ∈ ms, octalNumber (octalLine m.m_lineno) = m.m_lineno.toNat
        ∧ (number (octalLine m.m_lineno) = m.m_lineno.toNat ↔ m.m_lineno.toNat < 8) := by
  constructor
  · rw [splitOn_log h, List.dropLast_concat, List.map_map]
    exact List.map_congr_left fun m hm => readLine_getLogMessage (h m hm)
  · intro m _
    exact ⟨octalNumber_octalLine _, number_octalLine_iff _⟩

def sampleLog : List Message :=
  [⟨.INFO, ⟨0, 30, 9, 5, 0, 126⟩, 7000, 4242, 0xab12, "[start]: x".toList.map charByte, "a.cpp".toList.map charByte, 7⟩,
    ⟨.ERROR, ⟨1, 30, 9, 5, 0, 126⟩, 0, 4242, 0xab12, "no ] here".toList.map charByte, "a:b.cpp".toList.map charByte, 120⟩]

theorem log_readBack_two :
    ((sampleLog.flatMap Message.getLogMessage).splitOn newline).dropLast.map readLine
        = sampleLog.map (fun m => some ⟨m.front, m.m_message, m.m_filename, octalLine m.m_lineno⟩)
      ∧ ∀ m ∈ sampleLog, octalNumber (octalLine m.m_lineno) = m.m_lineno.toNat
        ∧ (number (octalLine m.m_lineno) = m.m_lineno.toNat ↔ m.m_lineno.toNat < 8) :=
  log_readBack sampleLog fun m hm => by
    rcases List.mem_cons.mp hm with rfl | hm
    · exact ⟨by decide, by decide, by decide⟩
    · rw [List.mem_singleton.mp hm]
      exact ⟨by decide, by decide, by decide⟩

end Log
end Huicpp
