import Mathlib.Data.List.Basic
import Mathlib.Tactic.Cases
import Mathlib.Algebra.BigOperators.Group.List.Basic
import Mathlib.Algebra.Ring.Nat
import BotTrader.Web.Base64

/-! The database of the application: the result of the last query and a cursor in it that
takes the rows off the front. SQLite itself is a parameter. -/

namespace BotTrader.Application

open Web

/-- The UTF-8 bytes of a text. -/
def utf8 (s : String) : Bytes := s.toUTF8.data.toList

/-- `str.c_str()`, as its reader sees it. -/
def cStr (s : String) : String := String.ofList (s.toList.takeWhile (· ≠ '\x00'))

/-- A row that `sqlite3_exec` hands to the callback, by column. No column is `NULL`, and
SQLite limits a row to `SQLITE_MAX_LENGTH` bytes. -/
structure Row where
  columns : List (String × Bytes)
  length_le : (columns.map (·.2.length)).sum ≤ 1000000000

/-- Whether `sqlite3_exec` returned `SQLITE_OK`, and the rows of its callbacks. -/
abbrev Sqlite := String → Bool × List Row

structure Database where
  queryResult : List Row
  /-- The place of the iterator, the end of the list included. -/
  rit : ℕ
  rit_le : rit ≤ queryResult.length

namespace Row

/-- The entry of the map that the callback makes of a row; `insert` keeps the first of two
columns of one name. -/
def find (r : Row) (name : String) : Option Bytes := r.columns.lookup name

def value (r : Row) (name : String) : Bytes := (r.find name).getD []

/-- Three columns are no longer than the row. -/
theorem length_values_le (r : Row) {a b c : String} (hab : a ≠ b) (hac : a ≠ c) (hbc : b ≠ c) :
    (r.value a).length + (r.value b).length + (r.value c).length ≤ 1000000000 := by
  have hl := r.length_le
  unfold value find
  generalize r.columns = cs at hl
  suffices hs : ((cs.lookup a).getD []).length + ((cs.lookup b).getD []).length +
      ((cs.lookup c).getD []).length ≤ (cs.map (·.2.length)).sum by omega
  clear hl
  induction cs with
  | nil => simp
  | cons x cs ih =>
    obtain ⟨name, v⟩ := x
    have skip : ∀ {n : String}, n ≠ name → List.lookup n ((name, v) :: cs) = cs.lookup n := by
      intro n hn
      rw [List.lookup_cons, beq_false_of_ne hn]
    simp only [List.map_cons, List.sum_cons]
    by_cases ha : a = name
    · subst ha
      rw [List.lookup_cons_self, skip hab.symm, skip hac.symm, Option.getD_some]
      omega
    · by_cases hb : b = name
      · subst hb
        rw [List.lookup_cons_self, skip hab, skip hbc.symm, Option.getD_some]
        omega
      · by_cases hc : c = name
        · subst hc
          rw [List.lookup_cons_self, skip hac, skip hbc, Option.getD_some]
          omega
        · rw [skip ha, skip hb, skip hc]
          omega

end Row

namespace Database

/-- All rows of a query lie ahead. -/
def fresh (rows : List Row) : Database := ⟨rows, rows.length, le_rfl⟩

def exec (sqlite : Sqlite) (qstr : String) : Bool × Database :=
  ((sqlite (cStr qstr)).1, fresh (sqlite (cStr qstr)).2)

/-- `get_value<std::string>(name)` -/
def getValue (d : Database) (name : String) : Bytes :=
  if d.rit = d.queryResult.length then []
  else (d.queryResult.head?.bind (·.find name)).getD []

def next (d : Database) : Bool × Database :=
  let rows := if d.rit ≠ d.queryResult.length then d.queryResult.eraseIdx d.rit else d.queryResult
  (decide (rows ≠ []), ⟨rows, 0, Nat.zero_le _⟩)

/-- The cursor has been moved to the front of the list. -/
def front (rows : List Row) : Database := ⟨rows, 0, Nat.zero_le _⟩

@[simp] theorem next_fresh (rows : List Row) :
    (fresh rows).next = (decide (rows ≠ []), front rows) := by
  simp [next, fresh, front]

@[simp] theorem next_front (r : Row) (rows : List Row) :
    (front (r :: rows)).next = (decide (rows ≠ []), front rows) := by
  simp [next, front]

@[simp] theorem getValue_front (r : Row) (rows : List Row) (name : String) :
    (front (r :: rows)).getValue name = r.value name := by
  simp [getValue, front, Row.value]

/-- The rounds that a loop over the rows can still make. -/
def rounds (d : Database) : ℕ :=
  2 * d.queryResult.length + if d.rit = d.queryResult.length then 1 else 0

theorem rounds_next (d : Database) (h : d.next.1 = true) : d.next.2.rounds < d.rounds := by
  have hle := d.rit_le
  by_cases he : d.rit = d.queryResult.length
  · have hr : d.next = (decide (d.queryResult ≠ []), front d.queryResult) := by
      simp [next, he, front]
    have hn : d.queryResult ≠ [] := by simpa [hr] using h
    have hp := List.length_pos_iff.mpr hn
    have hz : ¬0 = d.queryResult.length := by omega
    simp [hr, rounds, front, he, hz]
  · have hr : d.next.2 = front (d.queryResult.eraseIdx d.rit) := by simp [next, he, front]
    have hl := List.length_eraseIdx_add_one (l := d.queryResult) (i := d.rit) (by omega)
    simp only [hr, rounds, front, if_neg he]
    split <;> omega

end Database

end BotTrader.Application
