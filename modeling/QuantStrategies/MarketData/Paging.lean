import Mathlib.Tactic.Linarith
import QuantStrategies.Lib.Iteration
import QuantStrategies.Lib.Result
import QuantStrategies.Lib.Timestamp
import QuantStrategies.MarketData.Service

/-!
# Page after page

`fetch_bars` asks an exchange for candles from a cursor on and moves the cursor
a period past the newest candle that came, until it is past the end, or nothing
comes, or only what is older. Nothing bounds the number of pages: that the loop
ends is a matter of the cursor moving.

Instants are handed to the exchange in whole milliseconds, by way of doubles, and
`int` cuts off what is left. The cut admits a candle at a start that is not a whole
millisecond: the candle that the start has just passed. Rounding may have the same
effect at a start that is one. A candle comes back as an instant by way of a double,
too. A period below a millisecond does not move the cursor at all.

What is true of all ranges is that the loop gets what lies between the milliseconds of
the two ends. Whether these are the candles of the range is a question about the
conversions alone, and the answer is yes when the ends are whole seconds.

Three things are kept apart: what the loop does between two numbers of milliseconds, which
is exact; what the conversions make of the two ends; and what they make of each candle. Only
the first is about the program's control flow, and `fetchBars_runs` says that the loop of
the other modules, which works on instants, is this one where nothing is rounded.
-/

open Datetime Result

/-- What `fetch_bars` raises: an error of the service, or the `ValueError` of a candle
that lies outside the years that a `datetime` has. -/
inductive FetchError where
  | bar (error : BarError)
  | yearOutOfRange
deriving DecidableEq

/-- An exchange that is asked for one page after the other: from its state and a cursor, a
page or a message, and the state it is left in. -/
abbrev PagedVenue (σ : Type) := σ → ℤ → Except String (List VenueRow) × σ

/-- The bar of a candle, at the instant that its timestamp is read as. -/
def VenueRow.readBar (row : VenueRow) : Except FetchError OhlcvBar :=
  match fromTimestampMs row.tsMs with
  | some t => .ok ⟨t, row.openPx, row.highPx, row.lowPx, row.closePx, row.volume⟩
  | none => .error .yearOutOfRange

/-- The `for row in batch` loop of `fetch_bars`: the bars of the rows that fall between
the cursor and the end. -/
def readPage (cursorMs untilMs : ℤ) (batch : List VenueRow) : Except FetchError (List OhlcvBar) :=
  (batch.filter fun row => cursorMs ≤ row.tsMs ∧ row.tsMs ≤ untilMs).mapM VenueRow.readBar

variable {σ : Type}

/-- One turn of the `while` loop of `fetch_bars`: what the loop ends in, or the bars of a
page and where it goes on. -/
def fetchTurn (venue : PagedVenue σ) (untilMs stepMs : ℤ) :
    σ × ℤ → Except FetchError (List OhlcvBar) ⊕ List OhlcvBar × σ × ℤ
  | (v, cursorMs) =>
      if cursorMs ≤ untilMs then
        match venue v cursorMs with
        | (.error message, _) => .inl (.error (.bar (.barFetch message)))
        | (.ok batch, v') =>
            match batch.getLast? with
            | none => .inl (.ok [])
            | some newest =>
                match readPage cursorMs untilMs batch with
                | .error e => .inl (.error e)
                | .ok bars =>
                    if newest.tsMs < cursorMs then .inl (.ok bars)
                    else .inr (bars, v', newest.tsMs + stepMs)
      else .inl (.ok [])

/-- The loop ends with these bars or this error. -/
def FetchRuns (venue : PagedVenue σ) (untilMs stepMs : ℤ) (v : σ) (cursorMs : ℤ)
    (r : Except FetchError (List OhlcvBar)) : Prop :=
  ∃ pages last, Iterates (fetchTurn venue untilMs stepMs) (v, cursorMs) pages last ∧
    r = last.map (pages.flatten ++ ·)

/-- `fetch_bars` ends with these bars or this error. Its `step_ms` is
`int(period.total_seconds() * 1000)`. -/
def FetchBarsRuns (venue : PagedVenue σ) (v : σ) (period : Period) (since stop : ℤ)
    (r : Except FetchError (List OhlcvBar)) : Prop :=
  if stop < since then r = .ok []
  else
    match ccxtTimeframe period with
    | none => r = .error (.bar (.noTimeframe period.length))
    | some _ =>
        FetchRuns venue (timestampMs stop) (timestampMs period.length) v (timestampMs since) r

namespace Paging

/-- An exchange with these candles, in order and on the grid of the period. It answers a
cursor with some of its candles from there on, one at least where there is one, and may put
older ones before them. -/
structure Conforms (period : Period) (candles : List VenueRow) (venue : PagedVenue σ) : Prop where
  /-- Its candles follow each other, and no two of them open at once. -/
  ascending : candles.Pairwise (fun a b => a.tsMs < b.tsMs)
  /-- They open on the boundaries of the period. -/
  grid : ∀ row ∈ candles, period.length ∣ row.tsMs * 1000
  /-- An answer begins with candles that are too old, if it likes, and goes on with those from
  the cursor on: at least one, if there is one, and with no gap. -/
  answers : ∀ v cursorMs, ∃ older k, 1 ≤ k ∧ (∀ row ∈ older, row.tsMs < cursorMs) ∧
    (venue v cursorMs).1 = .ok (older ++ (candles.filter fun row => cursorMs ≤ row.tsMs).take k)

/-- The bar of a candle. -/
def bar (row : VenueRow) : OhlcvBar :=
  ⟨row.tsMs * 1000, row.openPx, row.highPx, row.lowPx, row.closePx, row.volume⟩

/-- The candles of a range. -/
def inRange (since stop : ℤ) (candles : List VenueRow) : List VenueRow :=
  candles.filter fun row => since ≤ row.tsMs * 1000 ∧ row.tsMs * 1000 ≤ stop

/-- **The fetch is exact and ends**: from an exchange that conforms it gets the candles of
the range. From any exchange it gets nothing outside it, and ends with bars or with what
the exchange said. -/
structure FetchesExactly (period : Period) (since stop : ℤ) : Prop where
  /-- What it gets of a conforming exchange is what lies in the range. -/
  exact : ∀ (σ : Type) (venue : PagedVenue σ) (v : σ) (candles : List VenueRow),
    Conforms period candles venue →
      FetchBarsRuns venue v period since stop (.ok ((inRange since stop candles).map bar))
  /-- Whatever the exchange does, the loop ends, and never with an instant that no datetime can
  hold. -/
  ends : ∀ (σ : Type) (venue : PagedVenue σ) (v : σ), ∃ r,
    FetchBarsRuns venue v period since stop r ∧ r ≠ .error .yearOutOfRange
  /-- And what it returns lies in the range, if it returns. -/
  within : ∀ (σ : Type) (venue : PagedVenue σ) (v : σ) (bars : List OhlcvBar),
    FetchBarsRuns venue v period since stop (.ok bars) →
      ∀ b ∈ bars, since ≤ b.barTimestamp ∧ b.barTimestamp ≤ stop

/-- **The conversions do not matter**: the period is a millisecond at least. What lies
between the milliseconds of the two ends is read as an instant of the range. Of the grid of
the period, the instants of the range are the ones that lie between, and each is read as
itself. -/
structure ConvertsExactly (period : Period) (since stop : ℤ) : Prop where
  /-- A period is a millisecond at least, so that the cursor moves. -/
  moves : 1000 ≤ period.length
  /-- What lies between the milliseconds of the ends is an instant of the range, when it is read
  back. -/
  inside : ∀ m, timestampMs since ≤ m → m ≤ timestampMs stop →
    ∃ t, fromTimestampMs m = some t ∧ since ≤ t ∧ t ≤ stop
  /-- On the grid the milliseconds and the instants agree about what lies in the range. -/
  grid : ∀ m, period.length ∣ m * 1000 →
    (timestampMs since ≤ m ∧ m ≤ timestampMs stop ↔ since ≤ m * 1000 ∧ m * 1000 ≤ stop) ∧
      (since ≤ m * 1000 → m * 1000 ≤ stop → fromTimestampMs m = some (m * 1000))

/-! ## A turn -/

variable {venue : PagedVenue σ} {untilMs stepMs cursorMs next m : ℤ} {v v' : σ}
variable {bars : List OhlcvBar} {r r' : Except FetchError (List OhlcvBar)}

/-- A bar whose instant a millisecond between the cursor and the end is read as. -/
def ReadBetween (cursorMs untilMs : ℤ) (b : OhlcvBar) : Prop :=
  ∃ m, cursorMs ≤ m ∧ m ≤ untilMs ∧ fromTimestampMs m = some b.barTimestamp

/-- A bar that is within a later part of the range is within the whole. -/
theorem ReadBetween.mono {b : OhlcvBar} (h : ReadBetween next untilMs b) (hle : cursorMs ≤ next) :
    ReadBetween cursorMs untilMs b :=
  h.imp fun _ hm => ⟨hle.trans hm.1, hm.2⟩

/-- A candle that is read has the instant of its milliseconds, which exists as long as the year
has four figures. -/
theorem readBar_eq_ok {row : VenueRow} {b : OhlcvBar} (h : row.readBar = .ok b) :
    fromTimestampMs row.tsMs = some b.barTimestamp := by
  unfold VenueRow.readBar at h
  split at h
  · next ht =>
    cases h
    exact ht
  · cases h

/-- The bars of a page are read between the cursor and the end. -/
theorem readPage_between {batch : List VenueRow} (h : readPage cursorMs untilMs batch = .ok bars) :
    ∀ b ∈ bars, ReadBetween cursorMs untilMs b := by
  intro b hb
  obtain ⟨row, hrow, hbar⟩ := exists_of_mem_mapM h hb
  have hin := of_decide_eq_true (List.mem_filter.mp hrow).2
  exact ⟨row.tsMs, hin.1, hin.2, readBar_eq_ok hbar⟩

/-- What a turn makes of a page. -/
theorem fetchTurn_page {batch : List VenueRow} (hle : cursorMs ≤ untilMs)
    (hanswer : (venue v cursorMs).1 = .ok batch) :
    fetchTurn venue untilMs stepMs (v, cursorMs) =
      match batch.getLast? with
      | none => .inl (.ok [])
      | some newest =>
          match readPage cursorMs untilMs batch with
          | .error e => .inl (.error e)
          | .ok bars =>
              if newest.tsMs < cursorMs then .inl (.ok bars)
              else .inr (bars, (venue v cursorMs).2, newest.tsMs + stepMs) := by
  have hvenue : venue v cursorMs = (.ok batch, (venue v cursorMs).2) := Prod.ext hanswer rfl
  simp only [fetchTurn]
  rw [if_pos hle, hvenue]

/-- Past the end there is nothing to ask. -/
theorem fetchTurn_past (hlt : untilMs < cursorMs) :
    fetchTurn venue untilMs stepMs (v, cursorMs) = .inl (.ok []) := by
  simp only [fetchTurn]
  exact if_neg (not_le.mpr hlt)

/-- A page that could not be fetched. -/
theorem fetchTurn_error {message : String} (hle : cursorMs ≤ untilMs)
    (hanswer : (venue v cursorMs).1 = .error message) :
    fetchTurn venue untilMs stepMs (v, cursorMs) = .inl (.error (.bar (.barFetch message))) := by
  have hvenue : venue v cursorMs = (.error message, (venue v cursorMs).2) :=
    Prod.ext hanswer rfl
  simp only [fetchTurn]
  rw [if_pos hle, hvenue]

/-- A turn goes on with a later cursor, and hands over bars that are read between. -/
theorem fetchTurn_eq_inr (h : fetchTurn venue untilMs stepMs (v, cursorMs) =
      .inr (bars, v', next)) :
    cursorMs ≤ untilMs ∧ cursorMs + stepMs ≤ next ∧ ∀ b ∈ bars, ReadBetween cursorMs untilMs b := by
  simp only [fetchTurn] at h
  split at h
  · next hle =>
    split at h
    · cases h
    · split at h
      · cases h
      · next newest hlast =>
        split at h
        · cases h
        · next hread =>
          split at h
          · cases h
          · next hnew =>
            cases h
            exact ⟨hle, Int.add_le_add_right (not_lt.mp hnew) stepMs, readPage_between hread⟩
  · cases h

/-- A turn ends with bars that are read between, or with an error. A year that is out of
range is the year of what lies between. -/
theorem fetchTurn_eq_inl (h : fetchTurn venue untilMs stepMs (v, cursorMs) = .inl r) :
    (∀ bars, r = .ok bars → ∀ b ∈ bars, ReadBetween cursorMs untilMs b) ∧
      (r = .error .yearOutOfRange →
        ∃ m, cursorMs ≤ m ∧ m ≤ untilMs ∧ fromTimestampMs m = none) := by
  simp only [fetchTurn] at h
  split at h
  · split at h
    · cases h
      exact ⟨nofun, nofun⟩
    · split at h
      · cases h
        refine ⟨fun bars hbars b hb => ?_, nofun⟩
        cases hbars
        exact absurd hb List.not_mem_nil
      · split at h
        · next e hread =>
          cases h
          refine ⟨nofun, fun _ => ?_⟩
          obtain ⟨row, hrow, hfails⟩ := exists_error_of_mapM hread
          have hin := of_decide_eq_true (List.mem_filter.mp hrow).2
          refine ⟨row.tsMs, hin.1, hin.2, ?_⟩
          unfold VenueRow.readBar at hfails
          split at hfails
          · cases hfails
          · assumption
        · next hread =>
          split at h
          · cases h
            refine ⟨fun bars hbars => ?_, nofun⟩
            cases hbars
            exact readPage_between hread
          · cases h
  · cases h
    refine ⟨fun bars hbars b hb => ?_, nofun⟩
    cases hbars
    exact absurd hb List.not_mem_nil

/-! ## The loop -/

/-- A loop has one run at most, as every turn is a function of what the exchange answers. -/
theorem FetchRuns.unique (h : FetchRuns venue untilMs stepMs v cursorMs r)
    (h' : FetchRuns venue untilMs stepMs v cursorMs r') : r = r' := by
  obtain ⟨pages, last, hrun, rfl⟩ := h
  obtain ⟨pages', last', hrun', rfl⟩ := h'
  obtain ⟨rfl, rfl⟩ := hrun.unique hrun'
  rfl

/-- A page, and what the rest of the loop gets. -/
theorem FetchRuns.cons (hturn : fetchTurn venue untilMs stepMs (v, cursorMs) =
      .inr (bars, v', next)) (h : FetchRuns venue untilMs stepMs v' next r) :
    FetchRuns venue untilMs stepMs v cursorMs (r.map (bars ++ ·)) := by
  obtain ⟨pages, last, hrun, rfl⟩ := h
  refine ⟨bars :: pages, last, .more hturn hrun, ?_⟩
  cases last with
  | error e => rfl
  | ok lastBars => exact congrArg Except.ok (List.append_assoc _ _ _).symm

/-- The loop, where its first turn ends it. -/
theorem FetchRuns.last (hturn : fetchTurn venue untilMs stepMs (v, cursorMs) = .inl r) :
    FetchRuns venue untilMs stepMs v cursorMs r := by
  refine ⟨[], r, .done hturn, ?_⟩
  cases r with
  | error e => rfl
  | ok bars => rfl

/-- **The loop ends**, when a period is a millisecond or more. The measure is the distance from
the cursor to the end, which every turn that goes on makes smaller. -/
theorem fetchRuns_ends (hstep : 1 ≤ stepMs) :
    ∃ r, FetchRuns venue untilMs stepMs v cursorMs r := by
  have hturn (s : σ × ℤ) (o : List OhlcvBar) (s' : σ × ℤ) (_ : True)
      (h : fetchTurn venue untilMs stepMs s = .inr (o, s')) :
      True ∧ (untilMs + 1 - s'.2).toNat < (untilMs + 1 - s.2).toNat := by
    obtain ⟨hle, hnext, -⟩ := fetchTurn_eq_inr h
    exact ⟨trivial, by omega⟩
  obtain ⟨pages, last, hrun⟩ := Iterates.exists_of_measure _ hturn (s := (v, cursorMs)) trivial
  exact ⟨_, pages, last, hrun, rfl⟩

/-- **The loop gets nothing from outside the range**, in milliseconds, and fails on nothing
from outside it. -/
theorem FetchRuns.within (hstep : 0 ≤ stepMs) (h : FetchRuns venue untilMs stepMs v cursorMs r) :
    (∀ bars, r = .ok bars → ∀ b ∈ bars, ReadBetween cursorMs untilMs b) ∧
      (r = .error .yearOutOfRange →
        ∃ m, cursorMs ≤ m ∧ m ≤ untilMs ∧ fromTimestampMs m = none) := by
  obtain ⟨pages, last, hrun, rfl⟩ := h
  have hall := hrun.invariant (I := fun s => cursorMs ≤ s.2)
    (P := fun bars => ∀ b ∈ bars, ReadBetween cursorMs untilMs b)
    (Q := fun last => (∀ bars, last = .ok bars → ∀ b ∈ bars, ReadBetween cursorMs untilMs b) ∧
      (last = .error .yearOutOfRange →
        ∃ m, cursorMs ≤ m ∧ m ≤ untilMs ∧ fromTimestampMs m = none))
    (fun s o s' hs hturn => by
      obtain ⟨-, hnext, hbars⟩ := fetchTurn_eq_inr hturn
      exact ⟨by omega, fun b hb => (hbars b hb).mono hs⟩)
    (fun s r hs hturn => by
      obtain ⟨hbars, hfails⟩ := fetchTurn_eq_inl hturn
      refine ⟨fun bars hr b hb => (hbars bars hr b hb).mono hs, fun hr => ?_⟩
      exact (hfails hr).imp fun m hm => ⟨hs.trans hm.1, hm.2⟩) le_rfl
  obtain ⟨hpages, hlast, hfails⟩ := hall
  cases last with
  | error e => exact ⟨nofun, fun hr => hfails (by cases hr; rfl)⟩
  | ok lastBars =>
    refine ⟨fun bars hr b hb => ?_, nofun⟩
    obtain rfl := Except.ok.inj hr
    rcases List.mem_append.mp hb with hb | hb
    · obtain ⟨page, hpage, hb⟩ := List.mem_flatten.mp hb
      exact hpages page hpage b hb
    · exact hlast lastBars rfl b hb

/-! ## An exchange that conforms -/

section Conforming

variable {period : Period} {candles older : List VenueRow} {newest row : VenueRow} {k : ℕ}
variable {sinceMs : ℤ}

/-- The candles from a cursor on. -/
def onward (candles : List VenueRow) (cursorMs : ℤ) : List VenueRow :=
  candles.filter fun row => cursorMs ≤ row.tsMs

/-- The candles from a cursor to the end. -/
def upTo (candles : List VenueRow) (cursorMs untilMs : ℤ) : List VenueRow :=
  candles.filter fun row => cursorMs ≤ row.tsMs ∧ row.tsMs ≤ untilMs

/-- Candles between the ends are a step apart, at least. -/
def Spaced (candles : List VenueRow) (stepMs sinceMs untilMs : ℤ) : Prop :=
  ∀ a ∈ candles, ∀ b ∈ candles, sinceMs ≤ a.tsMs → a.tsMs < b.tsMs → b.tsMs ≤ untilMs →
    a.tsMs + stepMs ≤ b.tsMs

/-- The candles from a cursor on, by their milliseconds. -/
theorem mem_onward : row ∈ onward candles cursorMs ↔ row ∈ candles ∧ cursorMs ≤ row.tsMs := by
  rw [onward, List.mem_filter, decide_eq_true_iff]

/-- What is to come from a later cursor is the same, whether it is picked from all candles or from
those that were left. -/
theorem upTo_onward (hle : cursorMs ≤ next) : upTo (onward candles cursorMs) next untilMs =
    upTo candles next untilMs := by
  unfold upTo onward
  rw [List.filter_filter]
  refine List.filter_congr fun row _ => ?_
  rw [← Bool.decide_and]
  exact decide_eq_decide.mpr (by omega)

/-- Candles are picked one by one, so it does not matter on how many pages they came. -/
theorem upTo_append (a b : List VenueRow) :
    upTo (a ++ b) cursorMs untilMs = upTo a cursorMs untilMs ++ upTo b cursorMs untilMs :=
  List.filter_append a b

/-- What is older than the cursor is dropped. -/
theorem upTo_older (h : ∀ row ∈ older, row.tsMs < cursorMs) : upTo older cursorMs untilMs = [] :=
  List.filter_eq_nil_iff.mpr fun row hrow hin =>
    absurd (of_decide_eq_true hin).1 (not_le.mpr (h row hrow))

/-- The newest candle of a page comes after the others of the page and before the rest. -/
theorem newest_between (hascending : candles.Pairwise fun a b => a.tsMs < b.tsMs)
    (hlast : ((onward candles cursorMs).take k).getLast? = some newest) :
    newest ∈ onward candles cursorMs ∧
      (∀ row ∈ (onward candles cursorMs).take k, row.tsMs ≤ newest.tsMs) ∧
      ∀ row ∈ (onward candles cursorMs).drop k, newest.tsMs < row.tsMs := by
  have hsorted : (onward candles cursorMs).Pairwise fun a b => a.tsMs < b.tsMs :=
    hascending.sublist List.filter_sublist
  obtain ⟨before, hbefore⟩ := List.getLast?_eq_some_iff.mp hlast
  have hmem : newest ∈ (onward candles cursorMs).take k :=
    hbefore ▸ List.mem_append_right _ List.mem_cons_self
  rw [← List.take_append_drop k (onward candles cursorMs)] at hsorted
  obtain ⟨htake, -, hcross⟩ := List.pairwise_append.mp hsorted
  refine ⟨List.mem_of_mem_take hmem, fun row hrow => ?_, fun row hrow => hcross _ hmem _ hrow⟩
  rw [hbefore] at htake hrow
  rcases List.mem_append.mp hrow with hrow | hrow
  · exact ((List.pairwise_append.mp htake).2.2 row hrow newest List.mem_cons_self).le
  · rw [List.mem_singleton.mp hrow]

/-- A step past the newest candle of a page, the rest of the candles goes on. -/
theorem upTo_next (hascending : candles.Pairwise fun a b => a.tsMs < b.tsMs)
    (hspaced : Spaced candles stepMs sinceMs untilMs) (hsince : sinceMs ≤ cursorMs)
    (hstep : 1 ≤ stepMs) (hlast : ((onward candles cursorMs).take k).getLast? = some newest) :
    upTo candles (newest.tsMs + stepMs) untilMs =
      upTo ((onward candles cursorMs).drop k) cursorMs untilMs := by
  obtain ⟨hnewest, htake, hdrop⟩ := newest_between hascending hlast
  obtain ⟨hmem, hle⟩ := mem_onward.mp hnewest
  have hnil : upTo ((onward candles cursorMs).take k) (newest.tsMs + stepMs) untilMs = [] :=
    upTo_older fun row hrow => by
      have := htake row hrow
      omega
  rw [← upTo_onward (by omega : cursorMs ≤ newest.tsMs + stepMs)]
  nth_rewrite 1 [← List.take_append_drop k (onward candles cursorMs)]
  rw [upTo_append, hnil, List.nil_append]
  refine List.filter_congr fun row hrow => decide_eq_decide.mpr ?_
  have hlt := hdrop row hrow
  have hrow' := (mem_onward.mp (List.mem_of_mem_drop hrow)).1
  have hgap := hspaced newest hmem row hrow' (hsince.trans hle) hlt
  exact ⟨fun h => ⟨by omega, h.2⟩, fun h => ⟨hgap h.2, h.2⟩⟩

/-- Where nothing is left, the exchange says so or repeats what is older. -/
theorem fetchRuns_nil (holder : ∀ row ∈ older, row.tsMs < cursorMs)
    (hanswer : (venue v cursorMs).1 = .ok older) :
    FetchRuns venue untilMs stepMs v cursorMs (.ok []) := by
  refine FetchRuns.last ?_
  by_cases hle : cursorMs ≤ untilMs
  · have hpage : readPage cursorMs untilMs older = .ok [] := by
      rw [readPage, show (older.filter fun row => cursorMs ≤ row.tsMs ∧ row.tsMs ≤ untilMs) = []
        from upTo_older holder]
      rfl
    rw [fetchTurn_page hle hanswer, hpage]
    cases hlast : older.getLast? with
    | none => rfl
    | some newest => exact if_pos (holder newest (List.mem_of_getLast? hlast))
  · exact fetchTurn_past (not_le.mp hle)

/-- **An exchange that conforms is read to the end**: what the loop gets is what its
candles between the ends are read as, without a loss and without a repetition. -/
theorem fetchRuns_conforming (h : Conforms period candles venue)
    (hspaced : Spaced candles stepMs sinceMs untilMs) (hstep : 1 ≤ stepMs) (v : σ) (cursorMs : ℤ)
    (hsince : sinceMs ≤ cursorMs) :
    FetchRuns venue untilMs stepMs v cursorMs
      ((upTo candles cursorMs untilMs).mapM VenueRow.readBar) := by
  induction hn : (untilMs + 1 - cursorMs).toNat using Nat.strongRecOn generalizing v cursorMs with
  | _ n ih =>
    by_cases hle : cursorMs ≤ untilMs
    · obtain ⟨older, k, hk, holder, hanswer⟩ := h.answers v cursorMs
      rw [← onward] at hanswer
      cases hlast : ((onward candles cursorMs).take k).getLast? with
      | none =>
        have htake : (onward candles cursorMs).take k = [] := List.getLast?_eq_none_iff.mp hlast
        have hnil : onward candles cursorMs = [] :=
          (List.take_eq_nil_iff.mp htake).resolve_left (by omega)
        rw [htake, List.append_nil] at hanswer
        rw [← upTo_onward le_rfl, hnil]
        exact fetchRuns_nil holder hanswer
      | some newest =>
        obtain ⟨hnewest, -, -⟩ := newest_between h.ascending hlast
        have hge : cursorMs ≤ newest.tsMs := (mem_onward.mp hnewest).2
        have hsplit : upTo candles cursorMs untilMs =
            upTo ((onward candles cursorMs).take k) cursorMs untilMs ++
              upTo candles (newest.tsMs + stepMs) untilMs := by
          rw [upTo_next h.ascending hspaced hsince hstep hlast, ← upTo_append,
            List.take_append_drop, upTo_onward le_rfl]
        have hread : readPage cursorMs untilMs (older ++ (onward candles cursorMs).take k) =
            (upTo ((onward candles cursorMs).take k) cursorMs untilMs).mapM VenueRow.readBar := by
          rw [readPage, ← upTo, upTo_append, upTo_older holder, List.nil_append]
        have hturn : fetchTurn venue untilMs stepMs (v, cursorMs) = _ :=
          fetchTurn_page hle hanswer
        rw [List.getLast?_append, hlast, Option.some_or, hread] at hturn
        dsimp only at hturn
        rw [hsplit, List.mapM_append]
        cases hpage : (upTo ((onward candles cursorMs).take k) cursorMs untilMs).mapM
          VenueRow.readBar with
        | error e =>
          rw [hpage] at hturn
          exact FetchRuns.last hturn
        | ok bars =>
          rw [hpage] at hturn
          dsimp only at hturn
          rw [if_neg (not_lt.mpr hge)] at hturn
          have hrest := ih _ (by omega) (venue v cursorMs).2 (newest.tsMs + stepMs) (by omega) rfl
          exact FetchRuns.cons hturn hrest
    · rw [upTo, List.filter_eq_nil_iff.mpr fun row _ hin => by
        have := of_decide_eq_true hin
        omega]
      exact FetchRuns.last (fetchTurn_past (not_le.mp hle))

end Conforming

/-! ## Instants and milliseconds -/

section Instants

variable {period : Period} {since stop : ℤ} {candles : List VenueRow}

/-- A millisecond is handed out as one, and what is shorter as none. -/
theorem one_le_timestampMs_iff {d : ℤ} : 1 ≤ timestampMs d ↔ 1000 ≤ d := by
  have hmilli : timestampMs 1000 = 1 := by decide +kernel
  have hless : timestampMs 999 = 0 := by decide +kernel
  constructor
  · intro h
    by_contra hlt
    have := timestampMs_mono (show d ≤ 999 by omega)
    omega
  · intro h
    rw [← hmilli]
    exact timestampMs_mono h

/-- The milliseconds of the years that there are lie between those of the first second and
those of the last one. -/
theorem timestampMs_bounds {t : ℤ} (h : Representable t) :
    -62135596800000 ≤ timestampMs t ∧ timestampMs t ≤ 253402300800000 := by
  have hmin : timestampMs minInstant = -62135596800000 := by decide +kernel
  have hmax : timestampMs maxInstant = 253402300800000 := by decide +kernel
  exact ⟨hmin.symm.trans_le (timestampMs_mono h.1), (timestampMs_mono h.2).trans_eq hmax⟩

/-- A step of the loop is not longer than the way from one candle to the next. -/
theorem spaced_of_grid (hgrid : ∀ row ∈ candles, period.length ∣ row.tsMs * 1000)
    (hsince : Representable since) (hstop : Representable stop) :
    Spaced candles (timestampMs period.length) (timestampMs since) (timestampMs stop) := by
  intro a ha b hb hfrom hlt hto
  have hlow := (timestampMs_bounds hsince).1
  have hhigh := (timestampMs_bounds hstop).2
  -- two candles of the grid are a period apart
  have hgap : period.length ≤ (b.tsMs - a.tsMs) * 1000 := by
    have hdvd := Int.dvd_sub (hgrid b hb) (hgrid a ha)
    rw [← sub_mul] at hdvd
    exact Int.le_of_dvd (by omega) hdvd
  have hstep := (timestampMs_mono hgap).trans (timestampMs_le (by omega) (by omega))
  omega

/-- For a range that is not empty, in a period that the exchange knows, the fetch is the loop
between the milliseconds of its ends. -/
theorem fetchBarsRuns_iff (hperiod : (ccxtTimeframe period).isSome) (hle : since ≤ stop) :
    FetchBarsRuns venue v period since stop r ↔
      FetchRuns venue (timestampMs stop) (timestampMs period.length) v (timestampMs since) r := by
  obtain ⟨timeframe, htimeframe⟩ := Option.isSome_iff_exists.mp hperiod
  unfold FetchBarsRuns
  rw [if_neg (not_lt.mpr hle), htimeframe]

/-- A candle at an instant. -/
def candleAt (tsMs : ℤ) : VenueRow := ⟨tsMs, 1, 1, 1, 1, 1⟩

/-- A candle with an instant becomes the bar of that instant; without one, as the year would have
five figures, it raises. -/
theorem readBar_candleAt (m : ℤ) : (candleAt m).readBar =
    match fromTimestampMs m with
    | some t => .ok ⟨t, 1, 1, 1, 1, 1⟩
    | none => .error .yearOutOfRange := rfl

/-- An exchange that has one candle, and sends it when it is asked for what is before. -/
def oneCandle (m : ℤ) : PagedVenue Unit := fun _ cursorMs =>
  (.ok (([candleAt m].filter fun row => cursorMs ≤ row.tsMs).take 1), ())

/-- An exchange with a single candle on the grid is one that conforms. The counterexamples need no
more of it. -/
theorem conforms_oneCandle (h : period.length ∣ m * 1000) :
    Conforms period [candleAt m] (oneCandle m) where
  ascending := List.pairwise_singleton _ _
  grid row hrow := by rwa [List.mem_singleton.mp hrow]
  answers _ _ := ⟨[], 1, le_rfl, fun _ h => absurd h List.not_mem_nil, rfl⟩

/-- An exchange that sends one candle, and one from before the cursor after it. -/
def thenOlder (m : ℤ) : PagedVenue Unit :=
  fun _ cursorMs => (.ok [candleAt m, candleAt (cursorMs - 1)], ())

/-- The candle is read when it lies between the milliseconds of the ends. -/
theorem fetchRuns_thenOlder (hfrom : cursorMs ≤ m) (hto : m ≤ untilMs) :
    FetchRuns (thenOlder m) untilMs stepMs () cursorMs ([candleAt m].mapM VenueRow.readBar) := by
  have hpage : upTo [candleAt m, candleAt (cursorMs - 1)] cursorMs untilMs = [candleAt m] := by
    have hin : cursorMs ≤ (candleAt m).tsMs ∧ (candleAt m).tsMs ≤ untilMs := ⟨hfrom, hto⟩
    rw [upTo, List.filter_cons_of_pos (by simpa using hin),
      List.filter_cons_of_neg (by simp [candleAt]), List.filter_nil]
  refine FetchRuns.last ?_
  rw [fetchTurn_page (hfrom.trans hto) rfl, readPage, ← upTo, hpage]
  cases [candleAt m].mapM VenueRow.readBar with
  | error e => rfl
  | ok bars => exact if_pos (Int.sub_one_lt_of_le le_rfl)

/-- An exchange that has a candle at every cursor. -/
def everyCursor : PagedVenue Unit := fun _ cursorMs => (.ok [candleAt cursorMs], ())

/-- A period that does not move the cursor asks for one page for ever. -/
theorem not_fetchRuns_everyCursor {t : ℤ} (hle : cursorMs ≤ untilMs)
    (hread : fromTimestampMs cursorMs = some t) :
    ¬ FetchRuns everyCursor untilMs 0 () cursorMs r := by
  have hpage : readPage cursorMs untilMs [candleAt cursorMs] = .ok [⟨t, 1, 1, 1, 1, 1⟩] := by
    have hin : cursorMs ≤ (candleAt cursorMs).tsMs ∧ (candleAt cursorMs).tsMs ≤ untilMs :=
      ⟨le_rfl, hle⟩
    rw [readPage, List.filter_cons_of_pos (by simpa using hin), List.filter_nil]
    refine mapM_cons_eq_ok.mpr ⟨_, [], ?_, rfl, rfl⟩
    rw [readBar_candleAt, hread]
  rintro ⟨pages, last, hrun, -⟩
  refine Iterates.not_of_fixed (o := [⟨t, 1, 1, 1, 1, 1⟩]) ?_ hrun
  rw [fetchTurn_page hle rfl, hpage]
  refine (if_neg (lt_irrefl cursorMs)).trans ?_
  exact congrArg (fun next => Sum.inr (_, (), next)) (add_zero cursorMs)

/-! ## When the fetch is exact -/

/-- What lies between the ends is read as an instant of the range, or some exchange gets
the loop to hand over what is not, or to fail. -/
theorem FetchesExactly.reads (h : FetchesExactly period since stop)
    (hperiod : (ccxtTimeframe period).isSome) (hle : since ≤ stop)
    (hfrom : timestampMs since ≤ m) (hto : m ≤ timestampMs stop) :
    ∃ t, fromTimestampMs m = some t ∧ since ≤ t ∧ t ≤ stop := by
  have hruns := (fetchBarsRuns_iff hperiod hle).mpr (fetchRuns_thenOlder hfrom hto)
  obtain ⟨r, hr, hne⟩ := h.ends Unit (thenOlder m) ()
  rw [FetchRuns.unique ((fetchBarsRuns_iff hperiod hle).mp hr)
    ((fetchBarsRuns_iff hperiod hle).mp hruns)] at hne
  cases hread : fromTimestampMs m with
  | none =>
    refine absurd ?_ hne
    rw [List.mapM_cons, readBar_candleAt, hread]
    rfl
  | some t =>
    have hbar : [candleAt m].mapM VenueRow.readBar = .ok [⟨t, 1, 1, 1, 1, 1⟩] := by
      refine mapM_cons_eq_ok.mpr ⟨_, [], ?_, rfl, rfl⟩
      rw [readBar_candleAt, hread]
    rw [hbar] at hruns
    exact ⟨t, rfl, h.within Unit _ () _ hruns _ List.mem_cons_self⟩

/-- What the loop gets from a single candle of the grid, and what it should get. -/
theorem FetchesExactly.candle (h : FetchesExactly period since stop)
    (hperiod : (ccxtTimeframe period).isSome) (hle : since ≤ stop)
    (hstep : 1 ≤ timestampMs period.length) (hgrid : period.length ∣ m * 1000) :
    (upTo [candleAt m] (timestampMs since) (timestampMs stop)).mapM VenueRow.readBar =
      .ok ((inRange since stop [candleAt m]).map bar) := by
  have hspaced : Spaced [candleAt m] (timestampMs period.length) (timestampMs since)
      (timestampMs stop) := by
    intro a ha b hb _ hlt _
    rw [List.mem_singleton.mp ha, List.mem_singleton.mp hb] at hlt
    exact absurd hlt (lt_irrefl _)
  have hconforms := conforms_oneCandle hgrid
  exact FetchRuns.unique (fetchRuns_conforming hconforms hspaced hstep () _ le_rfl)
    ((fetchBarsRuns_iff hperiod hle).mp (h.exact Unit _ () _ hconforms))

/-- Of the grid of the period, the instants of the range are what lies between the
milliseconds of its ends, and each is read as itself. -/
theorem FetchesExactly.grid (h : FetchesExactly period since stop)
    (hperiod : (ccxtTimeframe period).isSome) (hle : since ≤ stop)
    (hstep : 1 ≤ timestampMs period.length) (hgrid : period.length ∣ m * 1000) :
    (timestampMs since ≤ m ∧ m ≤ timestampMs stop ↔ since ≤ m * 1000 ∧ m * 1000 ≤ stop) ∧
      (since ≤ m * 1000 → m * 1000 ≤ stop → fromTimestampMs m = some (m * 1000)) := by
  have hcandle := h.candle hperiod hle hstep hgrid
  have hlength := (mapM_eq_ok.mp hcandle).length_eq
  by_cases hin : timestampMs since ≤ m ∧ m ≤ timestampMs stop
  · have hup : upTo [candleAt m] (timestampMs since) (timestampMs stop) = [candleAt m] :=
      List.filter_cons_of_pos (decide_eq_true hin)
    by_cases hrange : since ≤ m * 1000 ∧ m * 1000 ≤ stop
    · have hone : inRange since stop [candleAt m] = [candleAt m] :=
        List.filter_cons_of_pos (decide_eq_true hrange)
      refine ⟨iff_of_true hin hrange, fun _ _ => ?_⟩
      rw [hup, hone] at hcandle
      obtain ⟨b, rest, hb, -, hbar⟩ := mapM_cons_eq_ok.mp hcandle
      rw [← (List.cons.inj hbar).1] at hb
      simpa only [candleAt, bar] using readBar_eq_ok hb
    · have hnone : inRange since stop [candleAt m] = [] :=
        List.filter_cons_of_neg (mt of_decide_eq_true hrange)
      rw [hup, hnone] at hlength
      cases hlength
  · have hup : upTo [candleAt m] (timestampMs since) (timestampMs stop) = [] :=
      List.filter_cons_of_neg (mt of_decide_eq_true hin)
    have hrange : ¬ (since ≤ m * 1000 ∧ m * 1000 ≤ stop) := by
      intro hrange
      have hone : inRange since stop [candleAt m] = [candleAt m] :=
        List.filter_cons_of_pos (decide_eq_true hrange)
      rw [hup, hone] at hlength
      cases hlength
    exact ⟨iff_of_false hin hrange, fun h1 h2 => absurd ⟨h1, h2⟩ hrange⟩

/-- A fetch that is exact and ends takes conversions that do not matter. -/
theorem FetchesExactly.converts (h : FetchesExactly period since stop)
    (hperiod : (ccxtTimeframe period).isSome) (hle : since ≤ stop) :
    ConvertsExactly period since stop := by
  have hms := timestampMs_mono hle
  have hstep : 1 ≤ timestampMs period.length := by
    by_contra hshort
    have hzero : timestampMs period.length = 0 := by
      have := timestampMs_mono period.pos.le
      rw [show timestampMs 0 = 0 by decide +kernel] at this
      omega
    obtain ⟨t, ht, -⟩ := h.reads hperiod hle le_rfl hms
    obtain ⟨r, hr, -⟩ := h.ends Unit everyCursor ()
    rw [fetchBarsRuns_iff hperiod hle, hzero] at hr
    exact not_fetchRuns_everyCursor hms ht hr
  exact ⟨one_le_timestampMs_iff.mp hstep, fun m hfrom hto => h.reads hperiod hle hfrom hto,
    fun m hgrid => h.grid hperiod hle hstep hgrid⟩

/-- The candles of a range are what lies between the milliseconds of its ends, and each is
read as its bar. -/
theorem ConvertsExactly.reads (h : ConvertsExactly period since stop)
    (hgrid : ∀ row ∈ candles, period.length ∣ row.tsMs * 1000) :
    (upTo candles (timestampMs since) (timestampMs stop)).mapM VenueRow.readBar =
      .ok ((inRange since stop candles).map bar) := by
  have hrange : upTo candles (timestampMs since) (timestampMs stop) = inRange since stop candles :=
    List.filter_congr fun row hrow => decide_eq_decide.mpr (h.grid _ (hgrid row hrow)).1
  rw [hrange, mapM_eq_ok, List.forall₂_map_right_iff, List.forall₂_same]
  intro row hrow
  obtain ⟨hmem, hin⟩ := List.mem_filter.mp hrow
  have hin := of_decide_eq_true hin
  unfold VenueRow.readBar
  rw [(h.grid _ (hgrid row hmem)).2 hin.1 hin.2]
  rfl

/-- **When the fetch is exact and ends**, on periods that have a timeframe: exactly when the
range is empty, or the conversions between instants and milliseconds do not matter. -/
theorem fetchesExactly_iff (hperiod : (ccxtTimeframe period).isSome)
    (hsince : Representable since) (hstop : Representable stop) :
    FetchesExactly period since stop ↔ stop < since ∨ ConvertsExactly period since stop := by
  by_cases hempty : stop < since
  · refine iff_of_true ⟨?_, ?_, ?_⟩ (.inl hempty)
    · intro σ venue v candles _
      have hnone : inRange since stop candles = [] :=
        List.filter_eq_nil_iff.mpr fun row _ hin => by
          have := of_decide_eq_true hin
          omega
      rw [FetchBarsRuns, if_pos hempty, hnone]
      rfl
    · exact fun σ venue v => ⟨.ok [], (if_pos hempty).mpr rfl, nofun⟩
    · intro σ venue v bars hruns b hb
      rw [FetchBarsRuns, if_pos hempty] at hruns
      rw [Except.ok.inj hruns] at hb
      exact absurd hb List.not_mem_nil
  have hle : since ≤ stop := not_lt.mp hempty
  rw [or_iff_right hempty]
  refine ⟨fun h => h.converts hperiod hle, fun h => ?_⟩
  have hstep := one_le_timestampMs_iff.mpr h.moves
  refine ⟨?_, ?_, ?_⟩
  · intro σ venue v candles hconforms
    rw [fetchBarsRuns_iff hperiod hle, ← h.reads hconforms.grid]
    exact fetchRuns_conforming hconforms (spaced_of_grid hconforms.grid hsince hstop) hstep v _
      le_rfl
  · intro σ venue v
    obtain ⟨r, hr⟩ := @fetchRuns_ends σ venue (timestampMs stop) _ (timestampMs since) v hstep
    refine ⟨r, (fetchBarsRuns_iff hperiod hle).mpr hr, fun herror => ?_⟩
    obtain ⟨m, hfrom, hto, hnone⟩ := (FetchRuns.within (by omega) hr).2 herror
    obtain ⟨t, ht, -⟩ := h.inside m hfrom hto
    rw [hnone] at ht
    cases ht
  · intro σ venue v bars hruns b hb
    have hr := (fetchBarsRuns_iff hperiod hle).mp hruns
    obtain ⟨m, hfrom, hto, hread⟩ := (FetchRuns.within (by omega) hr).1 bars rfl b hb
    obtain ⟨t, ht, hin⟩ := h.inside m hfrom hto
    rw [hread] at ht
    cases ht
    exact hin

/-- **On whole seconds the conversions do not matter.** Both ends are converted without any
rounding, and rounding keeps what lies between them between them. -/
theorem convertsExactly_seconds {n a b : ℤ} (hperiod : period.length = n * 1000000)
    (hsince : Representable (a * 1000000)) (hstop : Representable (b * 1000000)) :
    ConvertsExactly period (a * 1000000) (b * 1000000) := by
  have hfrom := timestampMs_second (hsince.abs_second_le.trans (by norm_num))
  have hto := timestampMs_second (hstop.abs_second_le.trans (by norm_num))
  have hpos := period.pos
  refine ⟨by omega, fun m h1 h2 => ?_, fun m hgrid => ?_⟩
  · rw [hfrom] at h1
    rw [hto] at h2
    exact fromTimestampMs_between hsince hstop h1 h2
  · obtain ⟨s, hs⟩ : ∃ s, m = s * 1000 := by
      obtain ⟨k, hk⟩ := hgrid
      refine ⟨n * k, ?_⟩
      rw [hperiod] at hk
      linarith
    subst hs
    rw [hfrom, hto]
    refine ⟨by omega, fun h1 h2 => ?_⟩
    rw [fromTimestampMs_second (hsince.of_between hstop (by omega) (by omega))]
    exact congrArg some (by ring)

/-- A minute's period, from one second to the next minute. -/
theorem fetchesExactly_minute : FetchesExactly minutePeriod 1000000 60000000 :=
  (fetchesExactly_iff rfl (by decide) (by decide)).mpr
    (.inr (convertsExactly_seconds (n := 60) (a := 1) (b := 60) rfl (by decide) (by decide)))

/-- An exchange with two candles, a minute apart. -/
def twoMinutes : PagedVenue Unit := fun _ cursorMs =>
  (.ok (([candleAt 0, candleAt 60000].filter fun row => cursorMs ≤ row.tsMs).take 2), ())

/-- And so is one that puts an older candle before the one that was asked for. -/
theorem conforms_twoMinutes :
    Conforms minutePeriod [candleAt 0, candleAt 60000] twoMinutes where
  ascending := by simp [candleAt]
  grid row hrow := by
    rcases List.mem_cons.mp hrow with rfl | hrow
    · exact ⟨0, rfl⟩
    · rw [List.mem_singleton.mp hrow]
      exact ⟨1, rfl⟩
  answers _ _ := ⟨[], 2, by decide, fun _ h => absurd h List.not_mem_nil, rfl⟩

/-- **The candle before the start.** Half a millisecond past a candle, the candle is taken
for one that is still to come, and so is the candle of midnight a millisecond past midnight
on the first of June 2004. -/
theorem candle_before_start :
    FetchBarsRuns twoMinutes () minutePeriod 500 60000000
        (.ok [bar (candleAt 0), bar (candleAt 60000)]) ∧
      inRange 500 60000000 [candleAt 0, candleAt 60000] = [candleAt 60000] ∧
      ¬ FetchesExactly minutePeriod 500 60000000 ∧
      ¬ FetchesExactly minutePeriod 1086048000001000 1086048060000000 := by
  have hperiod : (ccxtTimeframe minutePeriod).isSome := rfl
  have hbefore {since stop m t : ℤ} (hle : since ≤ stop) (hfrom : timestampMs since ≤ m)
      (hto : m ≤ timestampMs stop) (hread : fromTimestampMs m = some t) (ht : t < since) :
      ¬ FetchesExactly minutePeriod since stop := by
    intro h
    obtain ⟨u, hu, hin⟩ := h.reads hperiod hle hfrom hto
    rw [hread] at hu
    cases hu
    omega
  refine ⟨?_, by simp [inRange, candleAt], hbefore (m := 0) (t := 0) ?_ ?_ ?_ ?_ ?_,
    hbefore (m := 1086048000000) (t := 1086048000000000) ?_ ?_ ?_ ?_ ?_⟩
  · rw [fetchBarsRuns_iff hperiod (by decide)]
    have hspaced := @spaced_of_grid _ 500 60000000 _ conforms_twoMinutes.grid (by decide) (by decide)
    have hruns := fetchRuns_conforming conforms_twoMinutes hspaced (by decide +kernel) () _ le_rfl
    refine (congrArg _ ?_).mp hruns
    decide +kernel
  all_goals decide +kernel

/-! ## The loop of the service -/

/-- An exchange whose pages do not depend on what was asked before. -/
def ofPages (page : ℤ → Except String (List VenueRow)) : PagedVenue Unit :=
  fun _ cursorMs => (page cursorMs, ())

/-- Rows on whole seconds are read as their bars, within a range that ends on whole
seconds. -/
theorem readPage_seconds {batch : List VenueRow} {a b : ℤ} (ha : Representable (a * 1000000))
    (hb : Representable (b * 1000000)) (hcursor : a * 1000 ≤ cursorMs)
    (hbatch : ∀ row ∈ batch, 1000 ∣ row.tsMs) :
    readPage cursorMs (b * 1000) batch = .ok (batch.filterMap (VenueRow.toBar cursorMs (b * 1000)))
    := by
  rw [readPage, mapM_eq_ok]
  induction batch with
  | nil => exact .nil
  | cons row batch ih =>
    obtain ⟨hrow, hbatch⟩ := List.forall_mem_cons.mp hbatch
    by_cases hin : cursorMs ≤ row.tsMs ∧ row.tsMs ≤ b * 1000
    · have hbar : row.toBar cursorMs (b * 1000) = some (bar row) := if_neg (by omega)
      rw [List.filter_cons_of_pos (by simpa using hin), List.filterMap_cons_some hbar]
      refine .cons ?_ (ih hbatch)
      obtain ⟨s, hs⟩ := hrow
      have hread := fromTimestampMs_second (s := s) (ha.of_between hb (by omega) (by omega))
      unfold VenueRow.readBar bar
      rw [show row.tsMs = s * 1000 by omega, hread]
      exact congrArg (fun t => Except.ok (OhlcvBar.mk t _ _ _ _ _)) (by ring)
    · have hnone : row.toBar cursorMs (b * 1000) = none := if_pos (by omega)
      rw [List.filter_cons_of_neg (by rwa [decide_eq_true_iff]), List.filterMap_cons_none hnone]
      exact ih hbatch

/-- Pages counted in advance are enough, since each of them moves the cursor. -/
theorem fetchLoop_runs {page : ℤ → Except String (List VenueRow)} {n : ℕ} {a b : ℤ}
    (ha : Representable (a * 1000000)) (hb : Representable (b * 1000000))
    (hcursor : a * 1000 ≤ cursorMs) (hstep : 0 ≤ stepMs)
    (hpage : ∀ c batch, page c = .ok batch → ∀ row ∈ batch, 1000 ∣ row.tsMs)
    (hpages : b * 1000 < cursorMs + n * stepMs) :
    FetchRuns (ofPages page) (b * 1000) stepMs () cursorMs
      ((fetchLoop page (b * 1000) stepMs n cursorMs).mapError .bar) := by
  induction n generalizing cursorMs with
  | zero =>
    rw [Nat.cast_zero, zero_mul, add_zero] at hpages
    exact FetchRuns.last (fetchTurn_past hpages)
  | succ n ih =>
    unfold fetchLoop
    by_cases hle : cursorMs ≤ b * 1000
    · rw [if_pos hle]
      cases hanswer : page cursorMs with
      | error message => exact FetchRuns.last (fetchTurn_error hle hanswer)
      | ok batch =>
        have hread := readPage_seconds ha hb hcursor (hpage cursorMs batch hanswer)
        have hturn : fetchTurn (ofPages page) (b * 1000) stepMs ((), cursorMs) = _ :=
          fetchTurn_page hle hanswer
        rw [hread] at hturn
        dsimp only
        cases hlast : batch.getLast? with
        | none =>
          rw [hlast] at hturn
          exact FetchRuns.last hturn
        | some newest =>
          rw [hlast] at hturn
          dsimp only at hturn ⊢
          by_cases hold : newest.tsMs < cursorMs
          · rw [if_pos hold] at hturn ⊢
            exact FetchRuns.last hturn
          · rw [if_neg hold] at hturn ⊢
            rw [Nat.cast_succ] at hpages
            have hrest := FetchRuns.cons hturn (ih (by omega) (by linarith [not_lt.mp hold]))
            cases hloop : fetchLoop page (b * 1000) stepMs n (newest.tsMs + stepMs) with
            | error e =>
              rw [hloop] at hrest
              exact hrest
            | ok bars =>
              rw [hloop] at hrest
              exact hrest
    · rw [if_neg hle]
      exact FetchRuns.last (fetchTurn_past (not_le.mp hle))

/-- **The fetch that counts its pages is the loop**, where everything is on whole seconds:
the period, the ends of the range, and what the exchange sends. -/
theorem fetchBars_runs {page : ℤ → Except String (List VenueRow)} {n a b : ℤ}
    (hperiod : period.length = n * 1000000) (hn : n ≤ 2 ^ 43)
    (ha : Representable (a * 1000000)) (hb : Representable (b * 1000000))
    (hpage : ∀ c batch, page c = .ok batch → ∀ row ∈ batch, 1000 ∣ row.tsMs) :
    FetchBarsRuns (ofPages page) () period (a * 1000000) (b * 1000000)
      ((fetchBars page period (a * 1000000) (b * 1000000)).mapError .bar) := by
  have hpos := period.pos
  have hms {s : ℤ} : toMs (s * 1000000) = s * 1000 := by
    rw [toMs, show s * 1000000 = s * 1000 * 1000 by ring, Int.mul_tdiv_cancel _ (by decide)]
  have hstep : period.length / 1000 = n * 1000 := by omega
  unfold FetchBarsRuns fetchBars
  by_cases hempty : b * 1000000 < a * 1000000
  · rw [if_pos hempty, if_pos hempty]
    rfl
  rw [if_neg hempty, if_neg hempty]
  cases ccxtTimeframe period with
  | none => rfl
  | some timeframe =>
    dsimp only
    rw [hms, hms, hstep, hperiod, timestampMs_second (s := n) (abs_le.mpr ⟨by omega, by omega⟩),
      timestampMs_second (ha.abs_second_le.trans (by norm_num)),
      timestampMs_second (hb.abs_second_le.trans (by norm_num))]
    have hcount := Int.lt_ediv_add_one_mul_self (b * 1000 - a * 1000)
      (show 0 < n * 1000 by omega)
    have hpages := Int.self_le_toNat ((b * 1000 - a * 1000) / (n * 1000) + 1)
    exact fetchLoop_runs ha hb le_rfl (by omega) hpage (by nlinarith)

end Instants

end Paging
