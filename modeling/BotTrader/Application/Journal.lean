import BotTrader.Application.Statistic
import BotTrader.Text.Fields
import BotTrader.Text.Number
import BotTrader.Text.Quote

/-! The statements about the journal, whose texts are put together from what the user and the
script say. Nothing doubles a quote, so that a text with one ends its literal early. -/

namespace BotTrader.Application

open Automata Text

/-- `Strategy.to_db_journal`: what the script hands on. -/
def toDbJournal (symbol msg : String) : String := symbol ++ "@" ++ msg

/-- `boost::algorithm::split(.., boost::is_any_of("@"))` -/
def splitAt (data : String) : List String := (data.toList.splitOn '@').map String.ofList

/-- The `INSERT` of two parts. -/
def insertText (t : UInt64) (symbol message : String) : String :=
  "INSERT INTO journal (dt, symbol, message) VALUES (" ++
    "datetime(" ++ toString t.toNat ++ ", 'unixepoch', 'localtime')," ++
    "'" ++ symbol ++ "'," ++ "'" ++ message ++ "')"

/-- The statements of `on_script_journal_data`; without a second part `at` raises. -/
def onScriptJournalData (t : UInt64) (data : String) : List String :=
  let ldt := t - 60 * 60 * 24
  let osq := "DELETE FROM journal WHERE " ++
    "dt < datetime(" ++ toString ldt.toNat ++ ", 'unixepoch', 'localtime')"
  match splitAt data with
  | symbol :: message :: _ => [osq, insertText t symbol message]
  | _ => [osq]

/-! ### What the statements should say -/

/-- The quote of a literal. -/
def sqlQuote : Char := '\x27'

def sqlTokens (text : String) : List (Token Char) := tokens sqlQuote text.toList

def code (text : String) : List (Token Char) := text.toList.map .char

def literal (value : String) : List (Token Char) := [.literal value.toList]

def datetime (t : UInt64) : List (Token Char) :=
  code "datetime(" ++ code (toString t.toNat) ++ code ", " ++ literal "unixepoch" ++ code ", " ++
    literal "localtime" ++ code ")"

/-- The journal of a symbol, or of all of them, since some hours ago or from its beginning. -/
def selection (time : UInt64) (symbol : String) (hours : UInt16) : List (Token Char) :=
  code "SELECT * FROM journal" ++
    (if symbol = "" then [] else code " WHERE symbol=" ++ literal symbol) ++
    if hours = 0 then []
    else code (if symbol = "" then " WHERE " else " AND ") ++ code "dt > " ++
      datetime (time - hours.toUInt64 * 60 * 60)

def insertion (t : UInt64) (symbol message : String) : List (Token Char) :=
  code "INSERT INTO journal (dt, symbol, message) VALUES (" ++ datetime t ++ code "," ++
    literal symbol ++ code "," ++ literal message ++ code ")"

/-! ### What they say -/

theorem tokens_datetime (t : UInt64) (rest : List Char) :
    tokens sqlQuote (("datetime(" ++ toString t.toNat ++ ", 'unixepoch', 'localtime')").toList ++
      rest) = datetime t ++ tokens sqlQuote rest := by
  have hn := not_mem_toString_nat (c := sqlQuote) (by decide) t.toNat
  have htext : ("datetime(" ++ toString t.toNat ++ ", 'unixepoch', 'localtime')").toList ++ rest =
      "datetime(".toList ++ ((toString t.toNat).toList ++ (", ".toList ++
        sqlQuote :: ("unixepoch".toList ++ sqlQuote :: (", ".toList ++
          sqlQuote :: ("localtime".toList ++ sqlQuote :: (")".toList ++ rest)))))) := by
    simp [sqlQuote]
  rw [htext, tokens_append (by decide), tokens_append hn, tokens_append (by decide),
    tokens_raw (by decide) (by simp [sqlQuote]), tokens_append (by decide),
    tokens_raw (by decide) (by simp [sqlQuote]), tokens_append (by decide)]
  simp [datetime, code, literal]

theorem tokens_code {text : String} (h : sqlQuote ∉ text.toList) (rest : List Char) :
    tokens sqlQuote (text.toList ++ rest) = code text ++ tokens sqlQuote rest :=
  tokens_append h rest

/-- The restriction to the last hours, as it stands in the query. -/
def since (time : UInt64) (symbol : String) (hours : UInt16) : String :=
  if hours = 0 then ""
  else (if symbol = "" then " WHERE " else " AND ") ++ "dt > " ++
    ("datetime(" ++ toString (time - hours.toUInt64 * 60 * 60).toNat ++
      ", 'unixepoch', 'localtime')")

theorem tokens_since (time : UInt64) (symbol : String) (hours : UInt16) :
    sqlTokens (since time symbol hours) = if hours = 0 then []
      else code (if symbol = "" then " WHERE " else " AND ") ++ code "dt > " ++
        datetime (time - hours.toUInt64 * 60 * 60) := by
  unfold since sqlTokens
  by_cases hh : hours = 0
  · rw [if_pos hh, if_pos hh]
    rfl
  · have hand : sqlQuote ∉ (if symbol = "" then " WHERE " else " AND ").toList := by
      split <;> decide
    have hd := tokens_datetime (time - hours.toUInt64 * 60 * 60) []
    rw [List.append_nil] at hd
    rw [if_neg hh, if_neg hh, String.toList_append, String.toList_append, List.append_assoc,
      tokens_code hand, tokens_code (by decide), hd, List.append_assoc]
    simp [tokens, scan]

theorem head_since (time : UInt64) (symbol : String) (hours : UInt16) :
    (since time symbol hours).toList.head? ≠ some sqlQuote := by
  unfold since
  by_cases hh : hours = 0
  · simp [hh]
  · by_cases hs : symbol = "" <;> simp [hh, hs, sqlQuote]

theorem before_isSome {pat : List Char} (hp : pat ≠ []) (a b : List Char) :
    (Https.before pat (a ++ (pat ++ b))).isSome = true := by
  induction a with
  | nil =>
    obtain ⟨c, cs, rfl⟩ := List.exists_cons_of_ne_nil hp
    simp [Https.before]
  | cons c cs ih =>
    rw [List.cons_append, Https.before]
    split
    · rfl
    · rw [Option.isSome_map]
      exact ih

theorem statQuery_eq (time : UInt64) (sd : StatData) :
    statQuery time sd = "SELECT * FROM journal" ++
      (if sd.symbol = "" then "" else " WHERE symbol='" ++ sd.symbol ++ "'") ++
      since time sd.symbol sd.hours := by
  by_cases hs : sd.symbol = ""
  · have hc : Https.contains "SELECT * FROM journal" "WHERE" = false := by decide
    by_cases hh : sd.hours = 0
    · simp [statQuery, since, hs, hh]
    · rw [← String.toList_inj]
      simp [statQuery, since, hs, hh, hc]
  · have hc : Https.contains ("SELECT * FROM journal" ++ " WHERE symbol='" ++ sd.symbol ++ "'")
        "WHERE" = true := by
      have hp : "WHERE".toList ≠ [] := by decide
      have hb := before_isSome hp
        "SELECT * FROM journal ".toList (" symbol='".toList ++ sd.symbol.toList ++ "'".toList)
      simpa [Https.contains, Https.substrBefore] using hb
    rw [← String.toList_inj]
    by_cases hh : sd.hours = 0
    · simp [statQuery, since, hs, hh]
    · simp only [statQuery, since, hs, hh, hc, ne_eq, not_false_eq_true, if_true, if_false,
        -String.reduceAppend]
      simp

/-- The query is the selection of the symbol if and only if the symbol has no quote. -/
theorem selects_iff (time : UInt64) (sd : StatData) :
    sqlTokens (statQuery time sd) = selection time sd.symbol sd.hours ↔
      sqlQuote ∉ sd.symbol.toList := by
  have hsince := tokens_since time sd.symbol sd.hours
  unfold sqlTokens at hsince ⊢
  rw [statQuery_eq, selection, ← hsince]
  by_cases hs : sd.symbol = ""
  · simp only [hs, if_true, String.append_empty, String.toList_append]
    rw [tokens_code (by decide)]
    simp
  · have htext : ("SELECT * FROM journal" ++ (" WHERE symbol='" ++ sd.symbol ++ "'") ++
        since time sd.symbol sd.hours).toList =
        "SELECT * FROM journal".toList ++ (" WHERE symbol=".toList ++
          sqlQuote :: (sd.symbol.toList ++ sqlQuote ::
            (since time sd.symbol sd.hours).toList)) := by
      simp [sqlQuote]
    rw [if_neg hs, if_neg hs, htext, tokens_code (by decide), tokens_code (by decide)]
    simp only [literal, List.append_assoc, List.append_cancel_left_eq, List.singleton_append]
    constructor
    · intro he
      exact (scan_raw_iff (head_since time sd.symbol sd.hours) _).mp ⟨_, he⟩
    · intro hq
      exact tokens_raw hq (head_since time sd.symbol sd.hours)

theorem tokens_insertText (t : UInt64) (symbol message : String) :
    sqlTokens (insertText t symbol message) =
      code "INSERT INTO journal (dt, symbol, message) VALUES (" ++ datetime t ++ code "," ++
        tokens sqlQuote (sqlQuote :: (symbol.toList ++ sqlQuote ::
          (",".toList ++ sqlQuote :: (message.toList ++ sqlQuote :: ")".toList)))) := by
  have htext : (insertText t symbol message).toList =
      "INSERT INTO journal (dt, symbol, message) VALUES (".toList ++
        (("datetime(" ++ toString t.toNat ++ ", 'unixepoch', 'localtime')").toList ++
          (",".toList ++ sqlQuote :: (symbol.toList ++ sqlQuote ::
            (",".toList ++ sqlQuote :: (message.toList ++ sqlQuote :: ")".toList))))) := by
    have hd : ", 'unixepoch', 'localtime'),".toList =
        ", 'unixepoch', 'localtime')".toList ++ ",".toList := by decide
    have hq : "'".toList = [sqlQuote] := by decide
    have hc : "',".toList = sqlQuote :: ",".toList := by decide
    have he : "')".toList = sqlQuote :: ")".toList := by decide
    unfold insertText
    simp only [String.toList_append, List.append_assoc, -String.reduceAppend]
    rw [hd, hq, hc, he]
    simp only [List.append_assoc, List.cons_append, List.nil_append]
  rw [sqlTokens, htext, tokens_code (by decide), tokens_datetime, tokens_code (by decide)]
  simp only [List.append_assoc]

/-- The two literals are read as they are if and only if there is no quote in them. -/
theorem tokens_literals_iff (symbol message : String) :
    tokens sqlQuote (sqlQuote :: (symbol.toList ++ sqlQuote ::
        (",".toList ++ sqlQuote :: (message.toList ++ sqlQuote :: ")".toList)))) =
      literal symbol ++ code "," ++ literal message ++ code ")" ↔
    sqlQuote ∉ symbol.toList ∧ sqlQuote ∉ message.toList := by
  have hcomma : (",".toList ++ sqlQuote :: (message.toList ++ sqlQuote :: ")".toList)).head? ≠
      some sqlQuote := by simp [sqlQuote]
  have hend : ")".toList.head? ≠ some sqlQuote := by decide
  have hlast : tokens sqlQuote ")".toList = code ")" := by decide
  have hread : sqlQuote ∉ symbol.toList →
      tokens sqlQuote (sqlQuote :: (symbol.toList ++ sqlQuote ::
        (",".toList ++ sqlQuote :: (message.toList ++ sqlQuote :: ")".toList)))) =
      literal symbol ++ code "," ++
        tokens sqlQuote (sqlQuote :: (message.toList ++ sqlQuote :: ")".toList)) := by
    intro hs
    rw [tokens_raw hs hcomma, tokens_code (by decide)]
    rfl
  constructor
  · intro he
    have hs : sqlQuote ∉ symbol.toList := (scan_raw_iff hcomma symbol.toList).mp ⟨_, he⟩
    rw [hread hs, List.append_assoc (literal symbol ++ code ","),
      List.append_cancel_left_eq] at he
    exact ⟨hs, (scan_raw_iff hend message.toList).mp ⟨_, he⟩⟩
  · rintro ⟨hs, hm⟩
    rw [hread hs, tokens_raw hm hend, hlast, List.append_assoc (literal symbol ++ code ",")]
    rfl

/-- The parts that are inserted are the first two between the separators. -/
theorem onScriptJournalData_eq (t : UInt64) (symbol msg : String) :
    ∃ first second, '@' ∉ first.toList ∧ '@' ∉ second.toList ∧
      ('@' ∉ symbol.toList → '@' ∉ msg.toList → first = symbol ∧ second = msg) ∧
      (onScriptJournalData t (toDbJournal symbol msg))[1]? = some (insertText t first second) := by
  have hsplit : (toDbJournal symbol msg).toList.splitOn '@' =
      symbol.toList.splitOn '@' ++ msg.toList.splitOn '@' := by
    have ht : (toDbJournal symbol msg).toList = symbol.toList ++ '@' :: msg.toList := by
      simp [toDbJournal]
    rw [ht, List.splitOn_append_cons_self]
  obtain ⟨a, as, ha⟩ := List.exists_cons_of_ne_nil (List.splitOn_ne_nil '@' symbol.toList)
  obtain ⟨b, bs, hb⟩ := List.exists_cons_of_ne_nil (List.splitOn_ne_nil '@' msg.toList)
  obtain ⟨c, cs, hc⟩ : ∃ c cs, as ++ b :: bs = c :: cs :=
    List.exists_cons_of_ne_nil (by simp)
  have hparts : (toDbJournal symbol msg).toList.splitOn '@' = a :: c :: cs := by
    rw [hsplit, ha, hb, List.cons_append, hc]
  have hnot : ∀ piece ∈ (toDbJournal symbol msg).toList.splitOn '@', '@' ∉ piece :=
    fun piece hp => not_mem_of_mem_splitOn hp
  rw [hparts] at hnot
  refine ⟨String.ofList a, String.ofList c, ?_, ?_, ?_, ?_⟩
  · simpa using hnot a (by simp)
  · simpa using hnot c (by simp)
  · intro hs hm
    rw [List.splitOn_eq_singleton hs, List.cons.injEq] at ha
    rw [List.splitOn_eq_singleton hm, List.cons.injEq] at hb
    rw [← ha.2, ← hb.1, List.nil_append, List.cons.injEq] at hc
    rw [← ha.1, ← hc.1, String.ofList_toList, String.ofList_toList]
    exact ⟨rfl, rfl⟩
  · simp [onScriptJournalData, splitAt, hparts]

/-- The `INSERT` holds what it is given if and only if neither text has a quote or the
separator. -/
theorem inserts_iff (t : UInt64) (symbol msg : String) :
    (onScriptJournalData t (toDbJournal symbol msg))[1]?.map sqlTokens =
        some (insertion t symbol msg) ↔
      (sqlQuote ∉ symbol.toList ∧ '@' ∉ symbol.toList) ∧
        sqlQuote ∉ msg.toList ∧ '@' ∉ msg.toList := by
  obtain ⟨first, second, hf, hs, heq, hd⟩ := onScriptJournalData_eq t symbol msg
  have hins : insertion t symbol msg =
      code "INSERT INTO journal (dt, symbol, message) VALUES (" ++ datetime t ++ code "," ++
        (literal symbol ++ code "," ++ literal msg ++ code ")") := by
    simp only [insertion, List.append_assoc]
  rw [hd, Option.map_some, Option.some_inj, tokens_insertText, hins, List.append_cancel_left_eq]
  constructor
  · intro he
    have hat : '@' ∉ sqlQuote :: (first.toList ++ sqlQuote ::
        (",".toList ++ sqlQuote :: (second.toList ++ sqlQuote :: ")".toList))) := by
      simp [hf, hs, sqlQuote]
    have hread : ∀ {v : List Char}, .literal v ∈ literal symbol ++ code "," ++ literal msg ++
        code ")" → '@' ∉ v := fun hl hm => hat (mem_of_mem_tokens (he ▸ hl) hm)
    have has : '@' ∉ symbol.toList := hread (by simp [literal])
    have ham : '@' ∉ msg.toList := hread (by simp [literal])
    obtain ⟨rfl, rfl⟩ := heq has ham
    obtain ⟨hqs, hqm⟩ := (tokens_literals_iff first second).mp he
    exact ⟨⟨hqs, has⟩, hqm, ham⟩
  · rintro ⟨⟨hqs, has⟩, hqm, ham⟩
    obtain ⟨rfl, rfl⟩ := heq has ham
    exact (tokens_literals_iff first second).mpr ⟨hqs, hqm⟩

/-- The replies of a dialogue that goes on to a request, and the texts of the script, stay
within their literals if and only if they hold no quote, and the texts of the script no
separator either. -/
theorem contained_iff {lexicalCast : String → Option UInt16} {symbolsList : List String}
    {es : List Statistic.Input} {reply : String} {i : Statistic.Input} {sd : StatData}
    (h : .statReady sd ∈ (Statistic.statistic lexicalCast symbolsList).emit
      ((Statistic.statistic lexicalCast symbolsList).run {} (es ++ [.setData reply])) i)
    (time : UInt64) (symbol msg : String) :
    (sqlTokens (statQuery time sd) = selection time (Statistic.chosen reply) sd.hours ↔
        sqlQuote ∉ (Statistic.firstArg reply).toList) ∧
      ((onScriptJournalData time (toDbJournal symbol msg))[1]?.map sqlTokens =
          some (insertion time symbol msg) ↔
        (sqlQuote ∉ symbol.toList ∧ '@' ∉ symbol.toList) ∧
          sqlQuote ∉ msg.toList ∧ '@' ∉ msg.toList) := by
  have hs : sd.symbol = Statistic.chosen reply := Statistic.symbol_of_ready h
  have hq : sqlQuote ∈ (Statistic.chosen reply).toList ↔
      sqlQuote ∈ (Statistic.firstArg reply).toList := by
    unfold Statistic.chosen
    by_cases ha : Statistic.firstArg reply = "$a"
    · rw [if_pos ha, ha]
      decide
    · rw [if_neg ha]
  refine ⟨?_, inserts_iff time symbol msg⟩
  rw [← hs, selects_iff, hs, hq]

/-- One hour is all that it reads. -/
def lexicalCastHour (s : String) : Option UInt16 := if s = "1" then some 1 else none

theorem requests (reply : String) (h : Statistic.firstArg reply ≠ "$c") :
    .statReady ⟨Statistic.chosen reply, 1⟩ ∈
      (Statistic.statistic lexicalCastHour ["BTC", "ETH"]).emit
        ((Statistic.statistic lexicalCastHour ["BTC", "ETH"]).run {} ([.start] ++ [.setData reply]))
        (.setData "1 час") := by
  have hf : lexicalCastHour (Statistic.firstArg "1 час") = some 1 := by decide
  simp [Statistic.statistic, Statistic.start, Statistic.engine_start, Statistic.engine_symbol,
    Statistic.engine_period, h, hf]

theorem contained_bitcoin :
    (sqlTokens (statQuery 1605556800 ⟨Statistic.chosen "BTC", 1⟩) =
        selection 1605556800 (Statistic.chosen "BTC") 1 ↔
      sqlQuote ∉ (Statistic.firstArg "BTC").toList) ∧
    ((onScriptJournalData 1605556800 (toDbJournal "BTC" "BUY"))[1]?.map sqlTokens =
        some (insertion 1605556800 "BTC" "BUY") ↔
      (sqlQuote ∉ "BTC".toList ∧ '@' ∉ "BTC".toList) ∧
        sqlQuote ∉ "BUY".toList ∧ '@' ∉ "BUY".toList) :=
  contained_iff (requests "BTC" (by decide)) 1605556800 "BTC" "BUY"

/-- A reply with a quote ends its literal. -/
theorem not_contained_quoted :
    .statReady ⟨Statistic.chosen "BTC'--", 1⟩ ∈
        (Statistic.statistic lexicalCastHour ["BTC", "ETH"]).emit
          ((Statistic.statistic lexicalCastHour ["BTC", "ETH"]).run {}
            ([.start] ++ [.setData "BTC'--"])) (.setData "1 час") ∧
      sqlTokens (statQuery 1605556800 ⟨Statistic.chosen "BTC'--", 1⟩) ≠
        selection 1605556800 (Statistic.chosen "BTC'--") 1 := by
  refine ⟨requests "BTC'--" (by decide), fun he => ?_⟩
  have hq := (selects_iff 1605556800 ⟨Statistic.chosen "BTC'--", 1⟩).mp he
  exact hq (by decide)

end BotTrader.Application
