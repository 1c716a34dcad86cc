import QuantStrategies.Frontend.Interval
import QuantStrategies.Refdata.Reader
import QuantStrategies.Shared.PeriodText

/-!
# The periods of the reference data

`REFDATA.TM_INTERVAL` has a period under each interval's id. It is published with the other
tables, as text, and read back twice: by `get_interval_period`, which takes the text apart
from its beginning to its end, and by the front end, which looks for days and for a clock in
it. Both find the period that was written, the front end to the second.

The two readers were written independently, and agree on the rows of the table for different
reasons: one goes through a pattern from its beginning to its end, the other looks for what
it knows anywhere in the text.
-/

namespace Refdata

/-- A row of `REFDATA.TM_INTERVAL`. -/
structure TmInterval where
  /-- What the interval is known by. -/
  tmIntervalId : ℤ
  /-- How long one of its bars is. -/
  periodLength : Timedelta
deriving DecidableEq

/-- The rows, which the id is the key of. -/
structure TmIntervals where
  /-- The rows, in the order in which they were read. -/
  rows : List TmInterval
  /-- No two of them have one id. -/
  key : (rows.map TmInterval.tmIntervalId).Nodup

/-- A row as a reader has it. -/
structure IntervalRow where
  /-- The id, as it was published. -/
  tmIntervalId : ℤ
  /-- The period, as a duration where it came from the database and as text where it came from
  Redis. -/
  periodLength : PeriodValue

/-- `json.dumps(row, default=str)`, read back. -/
def TmInterval.published (row : TmInterval) : IntervalRow :=
  ⟨row.tmIntervalId, .text row.periodLength.str⟩

/-- What `get_interval_period` raises: what the read of the table does, what the parser does,
or that there is no row. -/
inductive IntervalError where
  | read (e : ReadError)
  | parse (e : PeriodError)
  | runtimeError (message : String)
deriving DecidableEq

/-- `get_interval_period`, with what the read of the table answers. -/
def getIntervalPeriod (answer : Except ReadError (List IntervalRow)) (tmIntervalId : ℤ) :
    Except IntervalError Period :=
  match answer with
  | .error e => .error (.read e)
  | .ok rows =>
    match rows.find? fun r => r.tmIntervalId = tmIntervalId with
    | none => .error (.runtimeError s!"REFDATA.TM_INTERVAL missing TM_INTERVAL_ID={tmIntervalId}")
    | some r => (parsePeriod r.periodLength).mapError .parse

variable {table : TmIntervals} {row : TmInterval} {snap : Snapshot IntervalRow}
variable {answer : Except ReadError (List IntervalRow)}

/-- The row of an id is the one that is found. -/
theorem find?_published (h : row ∈ table.rows) :
    (table.rows.map TmInterval.published).find? (fun r => r.tmIntervalId = row.tmIntervalId) =
      some row.published := by
  have hfind : table.rows.find? ((fun r : IntervalRow => r.tmIntervalId = row.tmIntervalId) ∘
      TmInterval.published) = some row := by
    cases hfound : table.rows.find? ((fun r : IntervalRow => r.tmIntervalId = row.tmIntervalId) ∘
        TmInterval.published) with
    | none => exact absurd (decide_eq_true rfl) (List.find?_eq_none.mp hfound row h)
    | some r =>
      have hr := List.find?_some hfound
      have hid : r.tmIntervalId = row.tmIntervalId := of_decide_eq_true hr
      rw [List.inj_on_of_nodup_map table.key (List.mem_of_find?_eq_some hfound) h hid]
  rw [List.find?_map, hfind]
  rfl

/-- A published row gives the period of the row. -/
theorem getIntervalPeriod_ok (h : row ∈ table.rows) (hpos : 0 < row.periodLength.micros) :
    getIntervalPeriod (.ok (table.rows.map TmInterval.published)) row.tmIntervalId =
      .ok ⟨row.periodLength.micros, hpos⟩ := by
  simp only [getIntervalPeriod, find?_published h]
  rw [TmInterval.published, parsePeriod_text, parsePeriod_timedelta hpos]
  rfl

/-- A table that has a row is found, and is handed on as it was published. -/
theorem checkRows_published (h : row ∈ table.rows) (schema : Schema) (name : String) :
    checkRows schema name (table.rows.map TmInterval.published) =
      .ok (table.rows.map TmInterval.published) := by
  obtain ⟨first, rest, hrows⟩ := List.exists_cons_of_ne_nil (List.ne_nil_of_mem h)
  rw [hrows]
  rfl

/-- **What is published is what is read**: the period of an id is the one that the database
has. -/
theorem getIntervalPeriod_directRead
    (hsnap : snap "tm_interval" = some (table.rows.map TmInterval.published))
    (h : row ∈ table.rows) (hpos : 0 < row.periodLength.micros) :
    getIntervalPeriod (directRead snap .refdata "tm_interval") row.tmIntervalId =
      .ok ⟨row.periodLength.micros, hpos⟩ := by
  simp only [directRead, hsnap, checkRows_published h]
  exact getIntervalPeriod_ok h hpos

/-- **A shared reader gives a period that the database had** when the call started, or later:
if every publish since then has the row, the call has its period, unless Redis did not
answer. -/
theorem getIntervalPeriod_current {s : Shared IntervalRow} {since : ℕ}
    (hcurrent : Current s .refdata "tm_interval" since answer)
    (hlog : ∀ n, since ≤ n → n ≤ s.count .refdata → ∃ table : TmIntervals,
      s.log .refdata n "tm_interval" = some (table.rows.map TmInterval.published) ∧
        row ∈ table.rows)
    (hpos : 0 < row.periodLength.micros) :
    (∃ message, answer = .error (.runtimeError message)) ∨
      getIntervalPeriod answer row.tmIntervalId = .ok ⟨row.periodLength.micros, hpos⟩ := by
  obtain hfail | ⟨n, hsince, hcount, rfl⟩ := hcurrent
  · exact .inl hfail
  · obtain ⟨table, hsnap, h⟩ := hlog n hsince hcount
    exact .inr (getIntervalPeriod_directRead hsnap h hpos)

/-- **The codecs of a period agree.** The text that is published of a positive duration is
parsed as the duration; an interval's period, read back from what is published, is the one
that the database has; and the front end reads the whole seconds of it, and nothing where
there are none. -/
theorem period_codecs (p : Timedelta) (hpos : 0 < p.micros) :
    parsePeriod (.text p.str) = .ok ⟨p.micros, hpos⟩ ∧
      (∀ (table : TmIntervals) (discovered : List String)
        (fetchEnum : String → Option (List IntervalRow)) (id : ℤ), "tm_interval" ∈ discovered →
          fetchEnum "tm_interval" = some (table.rows.map TmInterval.published) →
            ⟨id, p⟩ ∈ table.rows →
              getIntervalPeriod (directRead (snapshot discovered fetchEnum) .refdata "tm_interval")
                id = .ok ⟨p.micros, hpos⟩) ∧
      Frontend.periodSeconds p.str =
        if p.micros / 1000000 = 0 then none else some (.whole (p.micros / 1000000).toNat) := by
  refine ⟨?_, fun table discovered fetchEnum id hdiscovered hfetch h => ?_, ?_⟩
  · rw [parsePeriod_text, parsePeriod_timedelta hpos]
  · have hsnap : snapshot discovered fetchEnum "tm_interval" =
        some (table.rows.map TmInterval.published) := by
      rw [snapshot, if_pos hdiscovered, hfetch, Option.getD_some]
    exact getIntervalPeriod_directRead hsnap h hpos
  · exact Frontend.periodSeconds_str hpos.le

namespace IntervalPeriod

/-- A day and half a minute, and half a second. -/
def overADay : Timedelta := ⟨86430500000, by decide, by decide⟩

/-- A period of more than a day is written with its days, and one with half a second with its
microseconds. -/
theorem overADay_str : overADay.str = "1 day, 0:00:30.500000" := by decide

/-- A table of two periods. -/
def intervals : TmIntervals := ⟨[⟨1, ⟨3600000000, by decide, by decide⟩⟩, ⟨7, overADay⟩], by decide⟩

/-- It is parsed to the microsecond, and read to the second. -/
theorem overADay_codecs :
    parsePeriod (.text "1 day, 0:00:30.500000") = .ok ⟨86430500000, by decide⟩ ∧
      getIntervalPeriod (directRead (snapshot ["app", "tm_interval"]
        fun _ => some (intervals.rows.map TmInterval.published)) .refdata "tm_interval") 7 =
          .ok ⟨86430500000, by decide⟩ ∧
      Frontend.periodSeconds "1 day, 0:00:30.500000" = some (.whole 86430) := by
  obtain ⟨hparse, hread, hseconds⟩ := period_codecs overADay (by decide)
  rw [overADay_str] at hparse hseconds
  exact ⟨hparse, hread intervals _ _ 7 (by decide) rfl (by decide), hseconds⟩

end IntervalPeriod

end Refdata
