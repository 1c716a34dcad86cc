import Mathlib.Data.List.Sort
import Mathlib.Data.Rat.Defs
import Mathlib.Data.List.Nodup
import QuantStrategies.Shared.Intervals

/-!
# The `PRICE_BAR` table

`MARKET_DATA.PRICE_BAR` holds one bar for each series and open time: the
natural key is the instrument, the interval, the venue and the bar timestamp.
The table is only ever inserted into, and a second bar under a key is refused
by the key itself. Here the key's uniqueness is a field of the table, so no
table in which a bar is stored twice can be built.

The three procedures of the repository class are modelled as they stand: the
coverage probe, the range read, oldest first, and the plain insert.

The open time is the only thing that bars of one series are told apart by, and what is asked
of the table is asked through it: whether a bar is stored, which bars lie in a range, what
the oldest and the newest are. The prices are carried along and never looked at.
-/

/-- What one series of bars is: an instrument, an interval and a venue. -/
structure Series where
  /-- The instrument, under the name that the platform has for it. -/
  internalCusip : String
  /-- The interval, as a row of the reference data. -/
  tmIntervalId : ℕ
  /-- The venue whose prices they are. -/
  sourceAppId : ℕ
deriving DecidableEq

/-- One bar, timestamped by its open time. -/
structure OhlcvBar where
  /-- When the bar opened, and what it is stored under. -/
  barTimestamp : ℤ
  /-- The first price of the bar. -/
  openPx : ℚ
  /-- The highest one. -/
  highPx : ℚ
  /-- The lowest one. -/
  lowPx : ℚ
  /-- The last one, which the signals are computed from. -/
  closePx : ℚ
  /-- What was traded. -/
  volume : ℚ
deriving DecidableEq

/-- A row of the table. -/
structure PriceBarRow where
  /-- Which series the bar belongs to. -/
  series : Series
  /-- The bar itself. -/
  bar : OhlcvBar
deriving DecidableEq

/-- The natural primary key of a row. -/
def PriceBarRow.key (r : PriceBarRow) : Series × ℤ := (r.series, r.bar.barTimestamp)

/-- The table, with its primary key. -/
structure PriceBar where
  /-- What is stored, the newest insert first. -/
  rows : List PriceBarRow
  /-- No key comes twice, which the database sees to. -/
  key_nodup : (rows.map PriceBarRow.key).Nodup

/-- What a failed procedure call reports. -/
structure ProcedureError where
  /-- The code of the error; a conflict with the key has a code of its own. -/
  sqlstate : String
deriving DecidableEq

/-- The state a unique constraint reports. -/
def uniqueViolation : String := "23505"

namespace PriceBar

/-- The table before anything was stored. -/
def empty : PriceBar := ⟨[], List.nodup_nil⟩

/-- A bar of the series is stored at the instant. -/
def Stored (db : PriceBar) (s : Series) (t : ℤ) : Prop :=
  (s, t) ∈ db.rows.map PriceBarRow.key

instance (db : PriceBar) (s : Series) (t : ℤ) : Decidable (db.Stored s t) :=
  inferInstanceAs (Decidable (_ ∈ _))

/-- The bars of a series, as they were inserted. -/
def bars (db : PriceBar) (s : Series) : List OhlcvBar :=
  (db.rows.filter (fun r => r.series = s)).map PriceBarRow.bar

/-- The oldest and newest of a list of instants. -/
def bounds : List ℤ → Option (ℤ × ℤ)
  | [] => none
  | t :: ts => some (ts.foldl min t, ts.foldl max t)

/-- Oldest and newest stored bar open times, or nothing when none is stored. -/
def getCoverage (db : PriceBar) (s : Series) : Option (ℤ × ℤ) :=
  bounds ((db.bars s).map OhlcvBar.barTimestamp)

/-- Bars of the range, both ends included, oldest first. -/
def getBars (db : PriceBar) (s : Series) (rangeStart rangeEnd : ℤ) : List OhlcvBar :=
  ((db.bars s).filter
    (fun b => rangeStart ≤ b.barTimestamp ∧ b.barTimestamp ≤ rangeEnd)).insertionSort
    (fun a b => a.barTimestamp ≤ b.barTimestamp)

/-- Insert one bar. A bar already stored under the key is refused. -/
def insBar (db : PriceBar) (s : Series) (b : OhlcvBar) : Except ProcedureError PriceBar :=
  if h : db.Stored s b.barTimestamp then .error ⟨uniqueViolation⟩
  else .ok ⟨⟨s, b⟩ :: db.rows, List.nodup_cons.mpr ⟨h, db.key_nodup⟩⟩

variable {db db' : PriceBar} {s s' : Series} {b : OhlcvBar} {t lo hi : ℤ}

/-- An empty table has no bar. -/
theorem not_stored_empty : ¬ empty.Stored s t := List.not_mem_nil

/-- A bar is stored exactly when one with its open time is among the bars of the series. -/
theorem stored_iff_mem_bars :
    db.Stored s t ↔ ∃ b ∈ db.bars s, b.barTimestamp = t := by
  unfold Stored bars PriceBarRow.key
  constructor
  · intro h
    obtain ⟨r, hr, hk⟩ := List.mem_map.mp h
    obtain ⟨hs, ht⟩ := Prod.mk.inj hk
    exact ⟨r.bar, List.mem_map.mpr ⟨r, List.mem_filter.mpr ⟨hr, decide_eq_true hs⟩, rfl⟩, ht⟩
  · rintro ⟨b, hb, rfl⟩
    obtain ⟨r, hr, rfl⟩ := List.mem_map.mp hb
    obtain ⟨hr, hs⟩ := List.mem_filter.mp hr
    exact List.mem_map.mpr ⟨r, hr, by rw [of_decide_eq_true hs]⟩

/-- An insert that goes through stores its bar and nothing else. -/
theorem stored_insBar (h : db.insBar s b = .ok db') :
    db'.Stored s' t ↔ db.Stored s' t ∨ (s' = s ∧ t = b.barTimestamp) := by
  unfold insBar at h
  split at h
  · exact absurd h (by simp)
  · obtain rfl := Except.ok.inj h
    simp only [Stored, List.map_cons, List.mem_cons, PriceBarRow.key, Prod.mk.injEq]
    exact or_comm

/-- An insert is refused exactly when the key is taken. -/
theorem insBar_error (h : db.Stored s b.barTimestamp) :
    db.insBar s b = .error ⟨uniqueViolation⟩ := dif_pos h

/-- A range is read with both of its ends. -/
theorem mem_getBars :
    b ∈ db.getBars s lo hi ↔ b ∈ db.bars s ∧ lo ≤ b.barTimestamp ∧ b.barTimestamp ≤ hi := by
  unfold getBars
  rw [List.mem_insertionSort, List.mem_filter, decide_eq_true_iff]

/-- The range read returns exactly the stored instants of the range. -/
theorem stored_iff_mem_getBars :
    (∃ b ∈ db.getBars s lo hi, b.barTimestamp = t) ↔ db.Stored s t ∧ lo ≤ t ∧ t ≤ hi := by
  rw [stored_iff_mem_bars]
  constructor
  · rintro ⟨b, hb, rfl⟩
    obtain ⟨h1, h2⟩ := mem_getBars.mp hb
    exact ⟨⟨b, h1, rfl⟩, h2⟩
  · rintro ⟨⟨b, hb, rfl⟩, h2⟩
    exact ⟨b, mem_getBars.mpr ⟨hb, h2⟩, rfl⟩

/-- No two bars of a series have one timestamp. -/
theorem bars_nodup : ((db.bars s).map OhlcvBar.barTimestamp).Nodup := by
  have hkeys : (db.rows.filter (fun r => r.series = s)).map PriceBarRow.key
      = ((db.bars s).map OhlcvBar.barTimestamp).map (fun t => (s, t)) := by
    unfold bars
    rw [List.map_map, List.map_map]
    refine List.map_congr_left (fun r hr => ?_)
    have hs : r.series = s := of_decide_eq_true (List.mem_filter.mp hr).2
    exact Prod.ext hs rfl
  refine List.Nodup.of_map (fun t => (s, t)) ?_
  rw [← hkeys]
  exact db.key_nodup.sublist (List.filter_sublist.map PriceBarRow.key)

/-- **The range read is in order**, no two of its bars alike. The key of the table leaves one row
of a series for each time, and the sort does the rest. -/
theorem getBars_pairwise :
    ((db.getBars s lo hi).map OhlcvBar.barTimestamp).Pairwise (· < ·) := by
  have htotal : Std.Total (fun a b : OhlcvBar => a.barTimestamp ≤ b.barTimestamp) :=
    ⟨fun a b => le_total a.barTimestamp b.barTimestamp⟩
  have htrans : IsTrans OhlcvBar (fun a b => a.barTimestamp ≤ b.barTimestamp) :=
    ⟨fun _ _ _ hab hbc => le_trans hab hbc⟩
  have hle : (db.getBars s lo hi).Pairwise (fun a b => a.barTimestamp ≤ b.barTimestamp) :=
    List.pairwise_insertionSort _ _
  have hne : ((db.getBars s lo hi).map OhlcvBar.barTimestamp).Nodup :=
    ((List.perm_insertionSort _ _).map OhlcvBar.barTimestamp).nodup_iff.mpr
      (bars_nodup.sublist (List.filter_sublist.map OhlcvBar.barTimestamp))
  exact ((List.pairwise_map.mpr hle).and hne).imp (fun h => lt_of_le_of_ne h.1 h.2)

/-- The running maximum is the largest element, or what it was started with. -/
theorem le_foldl_max (ts : List ℤ) (a : ℤ) :
    a ≤ ts.foldl max a ∧ (∀ t ∈ ts, t ≤ ts.foldl max a) ∧
      (ts.foldl max a = a ∨ ts.foldl max a ∈ ts) := by
  induction ts generalizing a with
  | nil => exact ⟨le_refl _, fun t ht => absurd ht List.not_mem_nil, Or.inl rfl⟩
  | cons x ts ih =>
    obtain ⟨h1, h2, h3⟩ := ih (max a x)
    refine ⟨(le_max_left a x).trans h1, fun t ht => ?_, ?_⟩
    · rcases List.mem_cons.mp ht with rfl | ht
      · exact (le_max_right a t).trans h1
      · exact h2 t ht
    · rw [List.foldl_cons]
      rcases h3 with h3 | h3
      · rw [h3]
        rcases max_choice a x with hm | hm
        · exact Or.inl hm
        · rw [hm]
          exact Or.inr List.mem_cons_self
      · exact Or.inr (List.mem_cons_of_mem _ h3)

/-- The oldest bound is at or below every instant of the list. -/
theorem bounds_fst_le {ts : List ℤ} {b : ℤ × ℤ} (h : bounds ts = some b) :
    ∀ t ∈ ts, b.1 ≤ t := by
  have hmin : ∀ (xs : List ℤ) (a : ℤ), xs.foldl min a ≤ a ∧ ∀ t ∈ xs, xs.foldl min a ≤ t := by
    intro xs
    induction xs with
    | nil => exact fun a => ⟨le_refl _, fun t ht => absurd ht List.not_mem_nil⟩
    | cons x xs ih =>
      intro a
      obtain ⟨h1, h2⟩ := ih (min a x)
      refine ⟨h1.trans (min_le_left a x), fun t ht => ?_⟩
      rcases List.mem_cons.mp ht with rfl | ht
      · exact h1.trans (min_le_right a t)
      · exact h2 t ht
  cases ts with
  | nil => exact absurd h (by simp [bounds])
  | cons x xs =>
    obtain rfl := Option.some.inj h
    intro t ht
    rcases List.mem_cons.mp ht with rfl | ht
    · exact (hmin xs t).1
    · exact (hmin xs x).2 t ht

/-- The oldest bound is one of the instants. -/
theorem bounds_fst_mem {ts : List ℤ} {b : ℤ × ℤ} (h : bounds ts = some b) : b.1 ∈ ts := by
  cases ts with
  | nil => exact absurd h (by simp [bounds])
  | cons x xs =>
    obtain rfl := Option.some.inj h
    clear h
    change xs.foldl min x ∈ x :: xs
    induction xs generalizing x with
    | nil => exact List.mem_cons_self
    | cons y xs ih =>
      rw [List.foldl_cons]
      rcases min_choice x y with hm | hm
      · rw [hm]
        exact (List.mem_cons.mp (ih x)).elim (fun h => List.mem_cons.mpr (Or.inl h))
          (fun h => List.mem_cons_of_mem _ (List.mem_cons_of_mem _ h))
      · rw [hm]
        exact List.mem_cons_of_mem _ (ih y)

/-- The newest bound is stored, and nothing newer is. -/
theorem getCoverage_some (h : db.getCoverage s = some (lo, hi)) :
    db.Stored s hi ∧ ∀ t, db.Stored s t → t ≤ hi := by
  unfold getCoverage bounds at h
  have hst : ∀ t, db.Stored s t ↔ t ∈ (db.bars s).map OhlcvBar.barTimestamp := fun t =>
    stored_iff_mem_bars.trans List.mem_map.symm
  split at h
  · exact absurd h (by simp)
  · rename_i x xs hx
    obtain ⟨-, rfl⟩ := Prod.mk.inj (Option.some.inj h)
    obtain ⟨h1, h2, h3⟩ := le_foldl_max xs x
    simp only [hst, hx, List.mem_cons]
    exact ⟨h3, fun t ht => ht.elim (fun e => e ▸ h1) (h2 t)⟩

/-- The oldest bound is stored, and nothing older is. -/
theorem getCoverage_oldest (h : db.getCoverage s = some (lo, hi)) :
    db.Stored s lo ∧ ∀ t, db.Stored s t → lo ≤ t := by
  have hst : ∀ t, db.Stored s t ↔ t ∈ (db.bars s).map OhlcvBar.barTimestamp := fun t =>
    stored_iff_mem_bars.trans List.mem_map.symm
  exact ⟨(hst lo).mpr (bounds_fst_mem h), fun t ht => bounds_fst_le h t ((hst t).mp ht)⟩

/-- Where there is no coverage there is no bar at all. -/
theorem getCoverage_none (h : db.getCoverage s = none) : ¬ db.Stored s t := by
  unfold getCoverage bounds at h
  rw [stored_iff_mem_bars, ← List.mem_map]
  split at h
  · rename_i hx
    rw [hx]
    exact List.not_mem_nil
  · exact absurd h (by simp)

end PriceBar
