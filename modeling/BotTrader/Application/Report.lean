import Mathlib.Tactic.NormNum
import BotTrader.Application.Database
import BotTrader.Https.Request
import BotTrader.Text.Pack

/-! The report about the journal, in messages of a limited length. The loop over the rows
drives the cursor of the database and fills a buffer, which it sends before a row that does
not fit. The counter of the rows is a signed integer, whose overflow is undefined; it is
unbounded here. -/

namespace BotTrader.Application

open Web Text

/-- `stat_data_t` -/
structure StatData where
  symbol : String
  hours : UInt16
  deriving DecidableEq

/-- `MAX_TEXT_MSG_SIZE` -/
def maxTextMsgSize : ℕ := 4096

/-- The query of `on_event_stat_ready`. -/
def statQuery (time : UInt64) (sd : StatData) : String :=
  let sq := "SELECT * FROM journal"
  let sq := if sd.symbol ≠ "" then sq ++ " WHERE symbol='" ++ sd.symbol ++ "'" else sq
  if sd.hours ≠ 0 then
    let sq := sq ++ if Https.contains sq "WHERE" then " AND " else " WHERE "
    let t := time - sd.hours.toUInt64 * 60 * 60
    sq ++ "dt > datetime(" ++ toString t.toNat ++ ", 'unixepoch', 'localtime')"
  else sq

def statHeader : Bytes :=
  utf8 "Статистика торгов:\n" ++ utf8 "----------------------------------\n"

def noRecords : Bytes := utf8 "Нет записей"

/-- The text of the row in front. -/
def rowText (d : Database) : Bytes :=
  d.getValue "dt" ++ utf8 " " ++ (d.getValue "symbol" ++ utf8 " ") ++
    (d.getValue "message" ++ utf8 "\n")

/-- The sizes are narrowed to `int`. -/
def overflows (temp mdata : Bytes) : Bool :=
  let tsize := Int32.ofNat temp.length
  let dsize := Int32.ofNat mdata.length
  Int32.ofNat maxTextMsgSize < tsize + dsize

/-- The loop over the rows: the messages sent, the buffer and the count at its end. -/
def reportRows (d : Database) (mdata : Bytes) (count : ℕ) : List Bytes × Bytes × ℕ :=
  if _h : d.next.1 = true then
    let d' := d.next.2
    let count := count + 1
    let temp := rowText d'
    if overflows temp mdata then
      let r := reportRows d' temp count
      (mdata :: r.1, r.2)
    else reportRows d' (mdata ++ temp) count
  else ([], mdata, count)
termination_by d.rounds
decreasing_by all_goals exact d.rounds_next _h

/-- The messages that are sent. -/
def onEventStatReady (sqlite : Sqlite) (time : UInt64) (sd : StatData) : List Bytes :=
  let sq := statQuery time sd
  let r := Database.exec sqlite sq
  if r.1 = false then [utf8 "Ошибка доступа к БД"]
  else
    let (sent, mdata, count) := reportRows r.2 statHeader 0
    let mdata := if count = 0 then mdata ++ noRecords else mdata
    sent ++ [mdata]

/-- What the report says of a row. -/
def Row.text (r : Row) : Bytes :=
  r.value "dt" ++ utf8 " " ++ (r.value "symbol" ++ utf8 " ") ++ (r.value "message" ++ utf8 "\n")

@[simp] theorem rowText_front (r : Row) (rows : List Row) :
    rowText (.front (r :: rows)) = r.text := by simp [rowText, Row.text]

theorem length_text_le (r : Row) : r.text.length ≤ 1000000003 := by
  have hv := r.length_values_le (a := "dt") (b := "symbol") (c := "message") (by decide) (by decide)
    (by decide)
  have hs : (utf8 " ").length = 1 := by decide +kernel
  have hn : (utf8 "\n").length = 1 := by decide +kernel
  simp only [Row.text, List.length_append, hs, hn]
  omega

theorem text_ne_nil (r : Row) : r.text ≠ [] := by
  have hn : utf8 "\n" ≠ [] := by decide +kernel
  simp [Row.text, hn]

theorem length_statHeader : statHeader.length = 70 := by decide +kernel

theorem length_noRecords : noRecords.length = 21 := by decide +kernel

/-- No row that SQLite can hand out makes the sum of the sizes overflow. -/
theorem overflows_iff {temp mdata : Bytes} (ht : temp.length ≤ 1000000003)
    (hm : mdata.length ≤ 1000000003) :
    overflows temp mdata = true ↔ maxTextMsgSize < temp.length + mdata.length := by
  have hsum : (Int32.ofNat temp.length + Int32.ofNat mdata.length).toInt =
      temp.length + mdata.length := by
    rw [Int32.toInt_add, Int32.toInt_ofNat_of_lt (by omega), Int32.toInt_ofNat_of_lt (by omega)]
    exact Int.bmod_eq_of_le_mul_two (by omega) (by omega)
  have hmax : (Int32.ofNat 4096).toInt = 4096 := by decide
  simp only [overflows, maxTextMsgSize, decide_eq_true_eq, Int32.lt_iff_toInt_lt, hsum, hmax]
  omega

/-- The loop packs the texts of the rows that lie ahead, and counts them. -/
theorem reportRows_eq (rows : List Row) {d : Database} (mdata : Bytes) (count : ℕ)
    (hd : d.next = (decide (rows ≠ []), .front rows)) (hm : mdata.length ≤ 1000000003) :
    ∃ sent last, reportRows d mdata count = (sent, last, count + rows.length) ∧
      sent ++ [last] = pack maxTextMsgSize mdata (rows.map Row.text) := by
  induction rows generalizing d mdata count with
  | nil =>
    have hr : reportRows d mdata count = ([], mdata, count) := by
      unfold reportRows
      simp [hd]
    exact ⟨[], mdata, hr, rfl⟩
  | cons r rows ih =>
    have hround : reportRows d mdata count =
        if overflows r.text mdata then
          (mdata :: (reportRows (.front (r :: rows)) r.text (count + 1)).1,
            (reportRows (.front (r :: rows)) r.text (count + 1)).2)
        else reportRows (.front (r :: rows)) (mdata ++ r.text) (count + 1) := by
      rw [reportRows]
      simp [hd]
    have hcount : count + 1 + rows.length = count + (r :: rows).length := by
      simp only [List.length_cons]
      omega
    have ht := length_text_le r
    rw [hround, List.map_cons, ← hcount]
    by_cases ho : maxTextMsgSize < r.text.length + mdata.length
    · obtain ⟨sent, last, he, hp⟩ := ih r.text (count + 1) (Database.next_front r rows) ht
      rw [if_pos ((overflows_iff ht hm).mpr ho), pack_of_lt ho, he, ← hp]
      exact ⟨mdata :: sent, last, rfl, rfl⟩
    · have hle : (mdata ++ r.text).length ≤ 1000000003 := by
        simp only [List.length_append, maxTextMsgSize] at ho ⊢
        omega
      rw [if_neg (mt (overflows_iff ht hm).mp ho), pack_of_le (by omega)]
      exact ih (mdata ++ r.text) (count + 1) (Database.next_front r rows) hle

/-- What is sent for the result of a query. -/
theorem onEventStatReady_eq {sqlite : Sqlite} {time : UInt64} {sd : StatData} {rows : List Row}
    (h : sqlite (cStr (statQuery time sd)) = (true, rows)) :
    onEventStatReady sqlite time sd =
      if rows = [] then [statHeader ++ noRecords]
      else pack maxTextMsgSize statHeader (rows.map Row.text) := by
  have hx : Database.exec sqlite (statQuery time sd) = (true, .fresh rows) := by
    simp [Database.exec, h]
  obtain ⟨sent, last, he, hp⟩ := reportRows_eq rows statHeader 0 (Database.next_fresh rows)
    (by rw [length_statHeader]; omega)
  cases rows with
  | nil =>
    have hs : sent = [] ∧ last = statHeader := by
      simpa [pack, List.append_eq_singleton_iff] using hp
    simp [onEventStatReady, hx, he, hs]
  | cons r rows => simpa [onEventStatReady, hx, he] using hp

/-! ### The text of a row -/

namespace Row

/-- The first column of that name has the value; a column that is not there counts as empty. -/
def First (r : Row) (name : String) (v : Bytes) : Prop :=
  (∃ l₁ l₂, r.columns = l₁ ++ (name, v) :: l₂ ∧ ∀ c ∈ l₁, c.1 ≠ name) ∨
    v = [] ∧ ∀ c ∈ r.columns, c.1 ≠ name

/-- What the journal says in a row. -/
def Says (r : Row) (text : Bytes) : Prop :=
  ∃ dt symbol message, r.First "dt" dt ∧ r.First "symbol" symbol ∧ r.First "message" message ∧
    text = dt ++ utf8 " " ++ (symbol ++ utf8 " ") ++ (message ++ utf8 "\n")

theorem first_value (r : Row) (name : String) : r.First name (r.value name) := by
  unfold value find
  cases hl : r.columns.lookup name with
  | some v =>
    obtain ⟨l₁, l₂, hc, hne⟩ := List.lookup_eq_some_iff.mp hl
    exact .inl ⟨l₁, l₂, hc, fun c hm he => by simpa [he] using hne c hm⟩
  | none =>
    refine .inr ⟨rfl, fun c hm he => ?_⟩
    have hne := List.lookup_eq_none_iff.mp hl c hm
    simp [he] at hne

theorem says_text (r : Row) : r.Says r.text :=
  ⟨_, _, _, r.first_value _, r.first_value _, r.first_value _, rfl⟩

end Row

/-- A row of the journal. -/
def bought : Row where
  columns := [("dt", utf8 "2020-11-16 19:52:16"), ("symbol", utf8 "BTC"), ("message", utf8 "BUY")]
  length_le := by decide +kernel

/-- A row that alone exceeds the limit. -/
def long : Row where
  columns := [("dt", utf8 "2020-11-16 19:52:17"), ("symbol", utf8 "BTC"),
    ("message", List.replicate 4096 65)]
  length_le := by decide +kernel

end BotTrader.Application
