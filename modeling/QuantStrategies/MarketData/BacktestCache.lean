import QuantStrategies.Database.ApiRequest
import QuantStrategies.Lib.Civil
import QuantStrategies.Lib.Jsonb
import QuantStrategies.Lib.Python
import QuantStrategies.Lib.Records

/-!
# The cache of provider windows

A refresh asks the provider for a range and stores what it sends, as records whose stamps
are texts of whole seconds, with the range it asked for. A read answers from what is stored
when that range covers the one it is asked for, and asks nobody.

What comes back is what was sent, to the second. The range is kept to the second too, so
that one that begins within a second is taken for one that begins with it. And the records
are kept as `jsonb`, which has an order of its own for the columns, and which gives back a
number of `10 ^ 16` and more as an integer that need not be equal to it.

The store is what `SP_GET_API_REQUEST` looks at: the open versions, each with its data.

The frame is followed on its whole way: from the provider's times, which may have a zone, to
texts of UTC; from records to a document and back; and from the stored bounds to a
comparison in nanoseconds. Each leg has its own lemma, and the places where something is
lost are conditions in the statement and not in the model.
-/

namespace BacktestCache

open Pandas Database NpFloat

variable {F : Type}

/-! ## Timestamps -/

/-- What 64 bits hold, but for the one value that is no time. -/
def InRange (t : ℤ) : Prop := -2 ^ 63 < t ∧ t < 2 ^ 63

instance (t : ℤ) : Decidable (InRange t) := inferInstanceAs (Decidable (_ ∧ _))

/-- `pd.Timestamp`: nanoseconds since the epoch, of UTC where there is a zone, and of the
clock on the wall where there is none. -/
structure Timestamp where
  /-- Nanoseconds since the epoch. -/
  asi8 : ℤ
  /-- The name of its zone, if it has one. -/
  tz : Option String
  /-- What pandas can hold in 64 bits. -/
  inRange : InRange asi8
deriving DecidableEq

/-- `ts.tz_convert(tz)`. -/
def Timestamp.tzConvert (tz : String) (ts : Timestamp) : Timestamp := { ts with tz := some tz }

/-- `ts.tz_localize("UTC")`. -/
def Timestamp.tzLocalizeUtc (ts : Timestamp) : Timestamp := { ts with tz := some "UTC" }

/-- `ts.strftime("%Y-%m-%d %H:%M:%S")`. -/
def strftime (t : ℤ) : String := Civil.strftime (t / 10 ^ 9)

/-- `pd.to_datetime(…, utc=True)`, of the texts that are stored. -/
def toDatetime : Scalar F → Except PyError ℤ
  | .text s =>
    match Civil.strptime s with
    | some t =>
      if InRange (10 ^ 9 * t) then .ok (10 ^ 9 * t)
      else .error (.valueError ("Out of bounds nanosecond timestamp: " ++ s))
    | none => .error (.valueError ("time data " ++ Python.repr s ++ " doesn't match format"))
  | _ => .error .typeError

/-- A text as the server reads it for a column of type `timestamptz`. -/
def timestamptz (s : String) : Except SqlError ℤ :=
  let time := String.ofList (s.toList.take 19)
  match Civil.strptime time with
  | some t =>
    if s = time ++ "+00" then .ok (10 ^ 9 * t)
    else .error ⟨"22007", "invalid input syntax for type timestamp with time zone", by decide⟩
  | none => .error ⟨"22007", "invalid input syntax for type timestamp with time zone", by decide⟩

/-- `BacktestCache._to_utc`, of a text. -/
def toUtc (timestamp : String → Except PyError Timestamp) (ts : String) :
    Except PyError (Option Timestamp) :=
  if ts = "" then .ok none
  else do
    let out ← timestamp ts
    return some (if out.tz.isSome then out.tzConvert "UTC" else out.tzLocalizeUtc)

/-- A time of whole seconds. -/
def WholeSeconds (t : ℤ) : Prop := (10 : ℤ) ^ 9 ∣ t

instance (t : ℤ) : Decidable (WholeSeconds t) := inferInstanceAs (Decidable (_ ∣ _))

/-- A stamp that is written and read again is the second that it falls in. -/
theorem civil_strptime_strftime {t : ℤ} (h : InRange t) :
    Civil.strptime (strftime t) = some (t / 10 ^ 9) := by
  obtain ⟨hlo, hhi⟩ := h
  exact Civil.strptime_strftime (by omega) (by omega)

/-- A stamp of whole seconds is read back. -/
theorem toDatetime_strftime {t : ℤ} (h : InRange t) (hwhole : WholeSeconds t) :
    toDatetime (.text (strftime t) : Scalar F) = .ok t := by
  have hback : 10 ^ 9 * (t / 10 ^ 9) = t := Int.mul_ediv_cancel' hwhole
  simp only [toDatetime, civil_strptime_strftime h, hback, if_pos h]

/-- The server reads the bound of a range to the second. -/
theorem timestamptz_strftime {t : ℤ} (h : InRange t) :
    timestamptz (strftime t ++ "+00") = .ok (10 ^ 9 * (t / 10 ^ 9)) := by
  have htake : String.ofList ((strftime t ++ "+00").toList.take 19) = strftime t := by
    have hlen : (strftime t).toList.length = 19 := Civil.length_strftime _
    rw [String.toList_append, List.take_left' hlen, String.ofList_toList]
  simp only [timestamptz, htake, civil_strptime_strftime h, if_true]

/-- Stamps of whole seconds come back as they were, all of them, so that an index does. -/
theorem mapM_toDatetime {ts : List ℤ} (h : ∀ t ∈ ts, InRange t)
    (hwhole : ∀ t ∈ ts, WholeSeconds t) :
    (ts.map fun t => (.text (strftime t) : Scalar F)).mapM toDatetime = .ok ts := by
  induction ts with
  | nil => rfl
  | cons t ts ih =>
    rw [List.map_cons, List.mapM_cons, toDatetime_strftime (h t (by simp)) (hwhole t (by simp)),
      Result.ok_bind, ih (fun t ht => h t (List.mem_cons_of_mem _ ht))
        (fun t ht => hwhole t (List.mem_cons_of_mem _ ht))]
    rfl

/-! ## Frames -/

/-- A frame that a provider sends: its index is of times in order, in a zone or in none, and
no two columns have one name. -/
structure ProviderFrame (F : Type) where
  /-- The columns, under the times of the index. -/
  frame : Frame ℤ (Scalar F)
  /-- The zone that the times are in, if they are in one. -/
  tz : Option String
  /-- Each time can be held. -/
  inRange : ∀ t ∈ frame.index, InRange t
  /-- Providers send them in order. -/
  sorted : frame.index.Pairwise (· ≤ ·)
  /-- A name is the name of one column. -/
  nodup : (frame.columns.map Prod.fst).Nodup

namespace ProviderFrame

/-- `frame.empty`: no rows, or no columns. -/
def isEmpty (f : ProviderFrame F) : Bool := f.frame.index.isEmpty || f.frame.columns.isEmpty

/-- `BacktestCache._to_utc_index`. -/
def toUtcIndex (f : ProviderFrame F) : ProviderFrame F :=
  if f.isEmpty then f
  else
    match f.tz with
    -- `tz_localize("UTC")` and `tz_convert("UTC")` keep the nanoseconds
    | none => { f with tz := some "UTC" }
    | some _ => { f with tz := some "UTC" }

/-- The records that are stored of a frame. -/
def payloadRecords (f : ProviderFrame F) : Except PyError (List (List (String × Scalar F))) := do
  let df ← f.frame.resetIndex "datetime"
    ⟨f.frame.index.map fun t => .text (strftime t), List.length_map _⟩
  return df.toRecords

/-- A zone is dropped without moving any row: the instants are the same. -/
@[simp] theorem frame_toUtcIndex (f : ProviderFrame F) : f.toUtcIndex.frame = f.frame := by
  unfold toUtcIndex
  split
  · rfl
  · split <;> rfl

/-- So the records are those of the frame as it came. -/
@[simp] theorem payloadRecords_toUtcIndex (f : ProviderFrame F) :
    f.toUtcIndex.payloadRecords = f.payloadRecords := by
  unfold toUtcIndex
  split
  · rfl
  · split <;> rfl

/-- A frame that is not empty has a row. -/
theorem index_ne_nil {f : ProviderFrame F} (h : f.isEmpty = false) : f.frame.index ≠ [] := by
  intro hnil
  simp [isEmpty, hnil] at h

end ProviderFrame

variable [JsonFloat F]

/-- `pd.DataFrame(payload)`, each column of one type. -/
def dataFrame (payload : List (List (String × Scalar F))) : Frame ℕ (Scalar F) :=
  let df := Frame.ofRecords (.number nan) payload
  df.rebuild df.index Scalar.converted fun xs h => (Scalar.length_converted xs).trans h

/-- `BacktestCache._payload_to_df`. There is no frame where the records have no times. -/
def payloadToDf (payload : List (List (String × Scalar F))) :
    Except PyError (Option (Frame ℤ (Scalar F))) :=
  if payload = [] then .ok none
  else
    let df := dataFrame payload
    match df.column "datetime" with
    | .error _ => .ok none
    | .ok c => do
      let stamps ← c.1.mapM toDatetime
      let df ← df.setIndex "datetime" stamps
      return some df.sortIndex

/-! ## The store -/

/-- An open version with its data. -/
structure Window (F : Type) where
  /-- What it is a window of. -/
  key : RequestKey
  /-- The id that its versions share. -/
  apiReqId : ℕ
  /-- The range that was asked for when it was fetched, to the second. -/
  rangeStartTs : Option ℤ
  /-- Its end, to the second. -/
  rangeEndTs : Option ℤ
  /-- The records as the store has them. -/
  payload : List (List (String × Scalar F))

/-- A null argument of `SP_GET_API_REQUEST` asks for nothing. -/
def Asks (key row : RequestKey) : Prop :=
  (key.appId.isNone ∨ row.appId = key.appId) ∧
    (key.appMetricId.isNone ∨ row.appMetricId = key.appMetricId) ∧
    (key.tmIntervalId.isNone ∨ row.tmIntervalId = key.tmIntervalId) ∧
    (key.internalCusip.isNone ∨ row.internalCusip = key.internalCusip)

instance (key row : RequestKey) : Decidable (Asks key row) := inferInstanceAs (Decidable (_ ∧ _))

/-- `BacktestCache._get_api_request`. -/
def getApiRequest (fault : Option CallError) (store : List (Window F)) (key : RequestKey) :
    Except CallError (List (Window F)) :=
  match fault with
  | some e => .error e
  | none => .ok (store.filter fun w => Asks key w.key)

/-- `BacktestCache._insert_api_request`: the open version of the id is closed, and the next
one opened. -/
def insertApiRequest (fault : Option CallError) (store : List (Window F)) (apiReqId : ℕ)
    (key : RequestKey) (startTs endTs : String) (records : List (List (String × Scalar F))) :
    Except CallError (List (Window F)) := do
  let rangeStartTs ← (timestamptz startTs).mapError .database
  let rangeEndTs ← (timestamptz endTs).mapError .database
  let payload ← (Jsonb.cast records).mapError .database
  match fault with
  | some e => .error e
  | none => return store.filter (fun w => w.apiReqId ≠ apiReqId) ++
      [⟨key, apiReqId, some rangeStartTs, some rangeEndTs, payload⟩]

/-! ## Reading and refreshing -/

/-- What the cache raises. -/
inductive CacheError where
  | cacheMiss (internalCusip : Option String) (requested : String × String) (message : String)
  | call (e : CallError)
  | py (e : PyError)

/-- What a read and a refresh are asked for. The default interval is the one of the settings
at the time. -/
structure Request where
  /-- The provider. -/
  appId : ℤ
  /-- Which of its figures. -/
  appMetricId : ℤ
  /-- The instrument. -/
  internalCusip : Option String
  /-- The range, as text, from here. -/
  rangeStart : String
  /-- And up to here. -/
  rangeEnd : String
  /-- The interval, where the caller gives one. -/
  tmIntervalId : Option ℤ
  /-- The interval that is taken otherwise. -/
  defaultTmIntervalId : ℤ

/-- The series of a request. -/
def Request.key (req : Request) : RequestKey :=
  ⟨some req.appId, some req.appMetricId,
    some (req.tmIntervalId.getD req.defaultTmIntervalId), req.internalCusip⟩

/-- What is cached of a series. -/
structure Current (F : Type) where
  /-- The id of the window, if there is one. -/
  apiReqId : Option ℕ
  /-- Where its range begins. -/
  start : Option ℤ
  /-- Where it ends. -/
  stop : Option ℤ
  /-- Its data, if they can be read. -/
  df : Option (Frame ℤ (Scalar F))

/-- `BacktestCache._lookup_current`. -/
def lookupCurrent (fault : Option CallError) (store : List (Window F)) (key : RequestKey) :
    Except CacheError (Current F) := do
  let existing ← (getApiRequest fault store key).mapError .call
  match existing with
  | [] => return ⟨none, none, none, none⟩
  | row :: _ =>
    let df ← (payloadToDf row.payload).mapError .py
    return ⟨some row.apiReqId, row.rangeStartTs, row.rangeEndTs, df⟩

/-- A read takes a call that fails as a miss, but not an error of the driver. -/
def orMiss : Except CacheError (Current F) → Except CacheError (Current F)
  | .error (.call (.database e)) => .error (.call (.database e))
  | .error (.call _) => .ok ⟨none, none, none, none⟩
  | r => r

/-- The bounds of the slice, where what is cached covers them. -/
def covered (current : Current F) (reqStart reqEnd : Option Timestamp) :
    Except PyError (Option (ℤ × ℤ)) :=
  match current.start, current.stop with
  | some cachedStart, some cachedEnd =>
    match reqStart with
    | none => .error .typeError
    | some reqStart =>
      if cachedStart ≤ reqStart.asi8 then
        match reqEnd with
        | none => .error .typeError
        | some reqEnd =>
          .ok (if reqEnd.asi8 ≤ cachedEnd then some (reqStart.asi8, reqEnd.asi8) else none)
      else .ok none
  | _, _ => .ok none

/-- `CacheMissError`. -/
def missError (current : Current F) (req : Request) : CacheError :=
  let cusip := (req.internalCusip.map Python.repr).getD "None"
  let requested := s!"[{req.rangeStart}, {req.rangeEnd}]"
  match current.start, current.stop with
  | none, _ => .cacheMiss req.internalCusip (req.rangeStart, req.rangeEnd)
      (s!"No cached data for {cusip} covering {requested}. " ++
        "Tick 'Refresh dataset' to fetch from the provider.")
  | some _, none => .py (.attributeError "date")
  | some start, some stop =>
    let first := Civil.isoDate (start / 10 ^ 9)
    let last := Civil.isoDate (stop / 10 ^ 9)
    .cacheMiss req.internalCusip (req.rangeStart, req.rangeEnd)
      (s!"Cached range for {cusip} is [{first}, {last}] which does not cover " ++
        s!"requested {requested}. Tick 'Refresh dataset' to fetch from the provider.")

/-- `BacktestCache.read_payload`. -/
def readPayload (timestamp : String → Except PyError Timestamp) (fault : Option CallError)
    (store : List (Window F)) (req : Request) : Except CacheError (Frame ℤ (Scalar F)) := do
  let reqStart ← (toUtc timestamp req.rangeStart).mapError .py
  let reqEnd ← (toUtc timestamp req.rangeEnd).mapError .py
  let current ← orMiss (lookupCurrent fault store req.key)
  let covers ← (covered current reqStart reqEnd).mapError .py
  match covers with
  | none => .error (missError current req)
  | some bounds =>
    match current.df with
    | none => .error (.py .typeError)
    | some df => return df.loc bounds.1 bounds.2

/-- A refresh: what it is asked for, what the provider answers, a new id, and what fails. -/
structure Refresh (F : Type) extends Request where
  /-- What the provider answers to a range. -/
  fetcher : String → String → Except CacheError (Option (ProviderFrame F))
  /-- The id that is made up where there is no window yet. -/
  generated : ℕ
  /-- What fails when the window is looked up. -/
  readFault : Option CallError
  /-- What fails when it is written. -/
  writeFault : Option CallError

/-- A bound of a range, which has no `strftime` where it is `None`. -/
def bound : Option Timestamp → Except CacheError Timestamp
  | some ts => .ok ts
  | none => .error (.py (.attributeError "strftime"))

/-- `BacktestCache.refresh_payload`, and the store after it. Nothing is returned, and nothing
stored, of a provider that sends nothing. -/
def refreshPayload (timestamp : String → Except PyError Timestamp) (store : List (Window F))
    (call : Refresh F) :
    Except CacheError (Option (Frame ℤ (Scalar F)) × List (Window F)) := do
  let reqStart ← (toUtc timestamp call.rangeStart).mapError .py
  let reqEnd ← (toUtc timestamp call.rangeEnd).mapError .py
  let current ← lookupCurrent call.readFault store call.key
  let fetched ← call.fetcher call.rangeStart call.rangeEnd
  match fetched with
  | none => return (none, store)
  | some fetched =>
    if fetched.isEmpty then return (none, store)
    else
      let fetched := fetched.toUtcIndex
      let apiReqId := current.apiReqId.getD call.generated
      let records ← fetched.payloadRecords.mapError .py
      let reqStart ← bound reqStart
      let reqEnd ← bound reqEnd
      let store ← (insertApiRequest call.writeFault store apiReqId call.key
        (strftime reqStart.asi8 ++ "+00") (strftime reqEnd.asi8 ++ "+00") records).mapError .call
      return (some (fetched.frame.loc reqStart.asi8 reqEnd.asi8), store)

/-! ## The round trip of a frame -/

/-- What is stored of a frame comes back record by record, where its cells do. -/
theorem map_reread {df : Frame ℕ (Scalar F)} (hnd : (df.columns.map Prod.fst).Nodup)
    (hkept : ∀ n xs, df.cells n = some xs → Jsonb.Kept xs) :
    df.toRecords.map (fun r => Jsonb.object (r.map fun e => (e.1, Jsonb.reread e.2))) =
      df.toRecords.map Jsonb.object := by
  refine List.map_congr_left fun r hr => congrArg Jsonb.object ?_
  refine (List.map_congr_left fun e he => ?_).trans (List.map_id r)
  obtain ⟨xs, hxs, hv⟩ := Frame.exists_cells hnd hr he
  exact Prod.ext rfl ((hkept e.1 xs hxs).reread hv)

/-- A column of texts comes back as it is. -/
theorem kept_texts {α : Type} (text : α → String) (xs : List α) :
    Jsonb.Kept (xs.map fun x => (.text (text x) : Scalar F)) where
  below x hx := by
    obtain ⟨s, -, hs⟩ := List.mem_map.mp hx
    cases hs
  alone x n hx := by
    obtain ⟨s, -, hs⟩ := List.mem_map.mp hx
    cases hs

/-- **What is stored of a frame with stamps of whole seconds is read as the same rows**, where
its columns come back as they are. -/
theorem payloadToDf_payloadRecords {f : ProviderFrame F}
    {records payload : List (List (String × Scalar F))} (hne : f.isEmpty = false)
    (hwhole : ∀ t ∈ f.frame.index, WholeSeconds t)
    (hkept : ∀ n xs, f.frame.cells n = some xs → Jsonb.Kept xs)
    (hrecords : f.payloadRecords = .ok records) (hcast : Jsonb.cast records = .ok payload) :
    ∃ df, payloadToDf payload = .ok (some df) ∧ Frame.SameRows df f.frame := by
  obtain ⟨df, hreset, hrecords⟩ := Result.bind_eq_ok.mp hrecords
  cases hrecords
  obtain ⟨hnone, hindex, hnames, hcells⟩ := Frame.resetIndex_eq_ok hreset
  have hlen : df.index.length = f.frame.index.length := by rw [hindex, List.length_range]
  have hidx : df.index ≠ [] := fun hnil => ProviderFrame.index_ne_nil hne
    (List.length_eq_zero_iff.mp (by rw [← hlen, hnil, List.length_nil]))
  have hnd : (df.columns.map Prod.fst).Nodup := by
    rw [hnames]
    exact List.nodup_cons.mpr ⟨Frame.cells_eq_none_iff.mp hnone, f.nodup⟩
  have hkeep (n : String) (xs : List (Scalar F)) (hxs : df.cells n = some xs) :
      Jsonb.Kept xs := by
    rw [hcells] at hxs
    by_cases hn : n = "datetime"
    · rw [if_pos hn] at hxs
      obtain rfl := Option.some.inj hxs
      exact kept_texts strftime f.frame.index
    · rw [if_neg hn] at hxs
      exact hkept n xs hxs
  obtain ⟨hpayload, -⟩ := Jsonb.cast_eq_ok hcast
  rw [map_reread hnd hkeep] at hpayload
  subst hpayload
  have hback (n : String) :
      (dataFrame (df.toRecords.map Jsonb.object)).cells n = df.cells n := by
    rw [dataFrame, Frame.cells_rebuild,
      Frame.cells_ofRecords_toRecords hidx hnd Jsonb.object_perm]
    cases hxs : df.cells n with
    | none => rfl
    | some xs => exact congrArg some (Scalar.converted_of_alone (hkeep n xs hxs).alone)
  -- the times are read from their column
  obtain ⟨c, hc, hstamps⟩ := Frame.column_eq_ok_iff_cells.mp
    ((hback "datetime").trans ((hcells "datetime").trans (if_pos rfl)))
  have htimes := mapM_toDatetime f.inRange hwhole (F := F)
  have hpayload : df.toRecords.map Jsonb.object ≠ [] := fun hnil => hidx
    (List.length_eq_zero_iff.mp (by
      rw [← Frame.length_toRecords, List.map_eq_nil_iff.mp hnil, List.length_nil]))
  have hrows : f.frame.index.length =
      (dataFrame (df.toRecords.map Jsonb.object)).index.length := by
    simp [dataFrame, Frame.rebuild, Frame.ofRecords, Frame.length_toRecords, hlen]
  obtain ⟨r, hr, hlabels, hrest⟩ := Frame.setIndex_eq_ok _ "datetime" hrows
  have hsorted : r.index.Pairwise (· ≤ ·) := hlabels ▸ f.sorted
  refine ⟨r.sortIndex, ?_, (Frame.sameRows_sortIndex hsorted).trans ⟨hlabels, fun n => ?_⟩⟩
  · rw [payloadToDf, if_neg hpayload]
    simp only [hc]
    rw [hstamps, htimes, Result.ok_bind, hr]
    rfl
  · rw [hrest, hback, hcells]
    by_cases hn : n = "datetime"
    · rw [if_pos hn, hn, hnone]
    · rw [if_neg hn, if_neg hn]

/-! ## One open version of a series -/

/-- A request of a named product. -/
def Request.Named (req : Request) : Prop := req.internalCusip ≠ none

/-- A request of a named product asks for one series. -/
theorem asks_iff {req : Request} (h : req.Named) (row : RequestKey) :
    Asks req.key row ↔ row = req.key := by
  obtain ⟨cusip, hcusip⟩ := Option.ne_none_iff_exists'.mp h
  obtain ⟨appId, appMetricId, tmIntervalId, internalCusip⟩ := row
  simp [Asks, Request.key, hcusip]

/-- No two open versions are of one series. -/
def OneOpen (store : List (Window F)) : Prop := store.Pairwise fun v w => v.key ≠ w.key

omit [JsonFloat F] in
/-- With one open window for each series, a request that names its series finds that window and no
other. -/
theorem filter_asks {store : List (Window F)} (hone : OneOpen store) {req : Request}
    (h : req.Named) {w : Window F} (hw : w ∈ store) (hkey : w.key = req.key) :
    store.filter (fun v => Asks req.key v.key) = [w] := by
  obtain ⟨before, after, rfl⟩ := List.append_of_mem hw
  obtain ⟨-, hafter, hbefore⟩ := List.pairwise_append.mp hone
  obtain ⟨hafter, -⟩ := List.pairwise_cons.mp hafter
  have hnone : before.filter (fun v => Asks req.key v.key) = [] :=
    List.filter_eq_nil_iff.mpr fun v hv => by
      rw [decide_eq_true_eq, asks_iff h, ← hkey]
      exact hbefore v hv w List.mem_cons_self
  have hnone' : after.filter (fun v => Asks req.key v.key) = [] :=
    List.filter_eq_nil_iff.mpr fun v hv => by
      rw [decide_eq_true_eq, asks_iff h, ← hkey]
      exact Ne.symm (hafter v hv)
  rw [List.filter_append, hnone, List.nil_append, List.filter_cons_of_pos, hnone']
  exact decide_eq_true ((asks_iff h w.key).mpr hkey)

/-! ## What a refresh does -/

/-- What a version has of the refresh that opened it: the range to the second, and the
records. -/
structure StoredBy (timestamp : String → Except PyError Timestamp) (call : Refresh F)
    (w : Window F) (s e : Timestamp) (f : ProviderFrame F) : Prop where
  /-- It is a window of the series that was refreshed. -/
  key : w.key = call.key
  /-- The range that was asked for has a beginning that can be read. -/
  start : toUtc timestamp call.rangeStart = .ok (some s)
  /-- And an end. -/
  stop : toUtc timestamp call.rangeEnd = .ok (some e)
  /-- The provider sent a frame for it. -/
  fetched : call.fetcher call.rangeStart call.rangeEnd = .ok (some f)
  /-- With rows in it: an empty one is not stored. -/
  nonempty : f.isEmpty = false
  /-- The beginning is stored to the second, which rounds it down. -/
  rangeStartTs : w.rangeStartTs = some (10 ^ 9 * (s.asi8 / 10 ^ 9))
  /-- And so is the end. -/
  rangeEndTs : w.rangeEndTs = some (10 ^ 9 * (e.asi8 / 10 ^ 9))
  /-- The records are what the database made of the frame's. -/
  payload : ∃ records, f.payloadRecords = .ok records ∧ Jsonb.cast records = .ok w.payload

/-- A bound that is missing raises; any other is taken as it is. -/
theorem bound_eq_ok {t : Option Timestamp} {ts : Timestamp} : bound t = .ok ts ↔ t = some ts := by
  cases t with
  | none => simp [bound]
  | some t => rw [bound, Except.ok.injEq, Option.some.injEq]

/-- A version that is written closes the one of its id. -/
theorem insertApiRequest_eq_ok {fault : Option CallError} {store store' : List (Window F)}
    {apiReqId : ℕ} {key : RequestKey} {s e : ℤ} {records : List (List (String × Scalar F))}
    (hs : InRange s) (he : InRange e)
    (h : insertApiRequest fault store apiReqId key (strftime s ++ "+00") (strftime e ++ "+00")
      records = .ok store') :
    ∃ payload, Jsonb.cast records = .ok payload ∧
      store' = store.filter (fun w => w.apiReqId ≠ apiReqId) ++
        [⟨key, apiReqId, some (10 ^ 9 * (s / 10 ^ 9)), some (10 ^ 9 * (e / 10 ^ 9)), payload⟩] := by
  obtain ⟨start, hstart, h⟩ := Result.bind_eq_ok.mp h
  obtain ⟨stop, hstop, h⟩ := Result.bind_eq_ok.mp h
  obtain ⟨payload, hpayload, h⟩ := Result.bind_eq_ok.mp h
  rw [Result.mapError_eq_ok] at hstart hstop hpayload
  rw [timestamptz_strftime hs] at hstart
  rw [timestamptz_strftime he] at hstop
  cases hstart
  cases hstop
  cases fault with
  | some err => cases h
  | none =>
    cases h
    exact ⟨payload, hpayload, rfl⟩

/-- **What a refresh does**: it leaves the store where the provider sends nothing, and opens
a version of its series otherwise, in the place of the one that was looked up. -/
theorem refreshPayload_eq_ok {timestamp : String → Except PyError Timestamp}
    {store store' : List (Window F)} {call : Refresh F} {out : Option (Frame ℤ (Scalar F))}
    (h : refreshPayload timestamp store call = .ok (out, store')) :
    (store' = store ∧ out = none ∧ ∀ f, call.fetcher call.rangeStart call.rangeEnd = .ok (some f) →
      f.isEmpty = true) ∨
    ∃ current w s e f, lookupCurrent call.readFault store call.key = .ok current ∧
      StoredBy timestamp call w s e f ∧
      w.apiReqId = current.apiReqId.getD call.generated ∧
      store' = store.filter (fun v => v.apiReqId ≠ w.apiReqId) ++ [w] ∧
      out = some (f.frame.loc s.asi8 e.asi8) := by
  obtain ⟨reqStart, hstart, h⟩ := Result.bind_eq_ok.mp h
  obtain ⟨reqEnd, hend, h⟩ := Result.bind_eq_ok.mp h
  obtain ⟨current, hcurrent, h⟩ := Result.bind_eq_ok.mp h
  obtain ⟨fetched, hfetched, h⟩ := Result.bind_eq_ok.mp h
  rw [Result.mapError_eq_ok] at hstart hend
  cases fetched with
  | none =>
    cases h
    exact Or.inl ⟨rfl, rfl, fun f hf => by cases hfetched.symm.trans hf⟩
  | some f =>
    cases hempty : f.isEmpty with
    | true =>
      simp only [hempty, if_true] at h
      cases h
      refine Or.inl ⟨rfl, rfl, fun g hg => ?_⟩
      cases hfetched.symm.trans hg
      exact hempty
    | false =>
      simp only [hempty, Bool.false_eq_true, if_false] at h
      obtain ⟨records, hrecords, h⟩ := Result.bind_eq_ok.mp h
      obtain ⟨s, hs, h⟩ := Result.bind_eq_ok.mp h
      obtain ⟨e, he, h⟩ := Result.bind_eq_ok.mp h
      obtain ⟨stored, hstored, h⟩ := Result.bind_eq_ok.mp h
      cases h
      rw [Result.mapError_eq_ok] at hrecords hstored
      cases bound_eq_ok.mp hs
      cases bound_eq_ok.mp he
      obtain ⟨payload, hpayload, rfl⟩ := insertApiRequest_eq_ok s.inRange e.inRange hstored
      rw [ProviderFrame.payloadRecords_toUtcIndex] at hrecords
      refine Or.inr ⟨current, ⟨call.key, current.apiReqId.getD call.generated, _, _, payload⟩,
        s, e, f, hcurrent, ⟨rfl, hstart, hend, hfetched, hempty, rfl,
        rfl, records, hrecords, hpayload⟩, rfl, rfl, ?_⟩
      rw [ProviderFrame.frame_toUtcIndex]

/-! ## What a read answers -/

/-- A read that looks up one version, of a frame that is there, answers from it what it
covers. -/
theorem readPayload_of_current {timestamp : String → Except PyError Timestamp}
    {fault : Option CallError} {store : List (Window F)} {req : Request} {lo hi : Timestamp}
    (hlo : toUtc timestamp req.rangeStart = .ok (some lo))
    (hhi : toUtc timestamp req.rangeEnd = .ok (some hi)) {current : Current F}
    (hcurrent : lookupCurrent fault store req.key = .ok current) {start stop : ℤ}
    {df : Frame ℤ (Scalar F)} (hstart : current.start = some start)
    (hstop : current.stop = some stop) (hdf : current.df = some df) (hfrom : start ≤ lo.asi8)
    (hto : hi.asi8 ≤ stop) :
    readPayload timestamp fault store req = .ok (df.loc lo.asi8 hi.asi8) := by
  have hcovered : covered current (some lo) (some hi) = .ok (some (lo.asi8, hi.asi8)) := by
    simp only [covered, hstart, hstop, if_pos hfrom, if_pos hto]
  rw [readPayload, hlo, hhi, hcurrent]
  show ((covered current (some lo) (some hi)).mapError CacheError.py >>= _) = _
  rw [hcovered]
  show (match current.df with
    | none => _
    | some df => _) = _
  rw [hdf]
  rfl

omit [JsonFloat F] in
/-- **A read is answered from the cache** only where the window begins no later than the range and
ends no earlier, all four instants being there. -/
theorem covered_eq_some {current : Current F} {reqStart reqEnd : Option Timestamp}
    {bounds : ℤ × ℤ} (h : covered current reqStart reqEnd = .ok (some bounds)) :
    ∃ start stop lo hi, current.start = some start ∧ current.stop = some stop ∧
      reqStart = some lo ∧ reqEnd = some hi ∧ start ≤ lo.asi8 ∧ hi.asi8 ≤ stop ∧
      bounds = (lo.asi8, hi.asi8) := by
  simp only [covered] at h
  cases hstart : current.start with
  | none => simp [hstart] at h
  | some start =>
    cases hstop : current.stop with
    | none => simp [hstart, hstop] at h
    | some stop =>
      cases reqStart with
      | none => simp [hstart, hstop] at h
      | some lo =>
        simp only [hstart, hstop] at h
        by_cases hfrom : start ≤ lo.asi8
        · cases reqEnd with
          | none => simp [hfrom] at h
          | some hi =>
            simp only [if_pos hfrom] at h
            by_cases hto : hi.asi8 ≤ stop
            · rw [if_pos hto] at h
              cases h
              exact ⟨start, stop, lo, hi, rfl, rfl, rfl, rfl, hfrom, hto, rfl⟩
            · rw [if_neg hto] at h
              cases h
        · rw [if_neg hfrom] at h
          cases h

/-- A lookup finds nothing, or the first version that is asked for. -/
theorem lookupCurrent_eq_ok {fault : Option CallError} {store : List (Window F)}
    {key : RequestKey} {current : Current F} (h : lookupCurrent fault store key = .ok current) :
    (store.filter (fun w => Asks key w.key) = [] ∧ current = ⟨none, none, none, none⟩) ∨
      ∃ w rest df, store.filter (fun w => Asks key w.key) = w :: rest ∧
        payloadToDf w.payload = .ok df ∧
        current = ⟨some w.apiReqId, w.rangeStartTs, w.rangeEndTs, df⟩ := by
  obtain ⟨existing, hexisting, h⟩ := Result.bind_eq_ok.mp h
  rw [Result.mapError_eq_ok] at hexisting
  cases fault with
  | some e => cases hexisting
  | none =>
    cases hexisting
    cases hfilter : store.filter (fun w => Asks key w.key) with
    | nil =>
      simp only [hfilter] at h
      cases h
      exact Or.inl ⟨rfl, rfl⟩
    | cons w rest =>
      simp only [hfilter] at h
      obtain ⟨df, hdf, h⟩ := Result.bind_eq_ok.mp h
      rw [Result.mapError_eq_ok] at hdf
      cases h
      exact Or.inr ⟨w, rest, df, rfl, hdf, rfl⟩

/-- What is cached, where anything is, is a version of the series. -/
theorem lookupCurrent_of_orMiss {fault : Option CallError} {store : List (Window F)}
    {key : RequestKey} {current : Current F}
    (h : orMiss (lookupCurrent fault store key) = .ok current) {start : ℤ}
    (hstart : current.start = some start) :
    ∃ w ∈ store, Asks key w.key ∧ w.rangeStartTs = current.start ∧
      w.rangeEndTs = current.stop ∧ payloadToDf w.payload = .ok current.df := by
  have hcurrent : lookupCurrent fault store key = .ok current := by
    cases hlookup : lookupCurrent fault store key with
    | ok c => rw [hlookup] at h; exact h
    | error e =>
      rw [hlookup] at h
      cases e with
      | cacheMiss => cases h
      | py e => cases h
      | call e =>
        -- a call that failed is a miss
        cases e <;> cases h <;> cases hstart
  obtain ⟨-, rfl⟩ | ⟨w, rest, df, hfilter, hdf, rfl⟩ := lookupCurrent_eq_ok hcurrent
  · cases hstart
  · have hw : w ∈ store.filter (fun w => Asks key w.key) := hfilter ▸ List.mem_cons_self
    obtain ⟨hw, hasks⟩ := List.mem_filter.mp hw
    exact ⟨w, hw, of_decide_eq_true hasks, rfl, rfl, hdf⟩

/-- What a read answers from. -/
theorem readPayload_eq_ok {timestamp : String → Except PyError Timestamp}
    {fault : Option CallError} {store : List (Window F)} {req : Request}
    {out : Frame ℤ (Scalar F)} (h : readPayload timestamp fault store req = .ok out) :
    ∃ lo hi w df, toUtc timestamp req.rangeStart = .ok (some lo) ∧
      toUtc timestamp req.rangeEnd = .ok (some hi) ∧ w ∈ store ∧ Asks req.key w.key ∧
      payloadToDf w.payload = .ok (some df) ∧ (∃ start, w.rangeStartTs = some start ∧
      start ≤ lo.asi8) ∧ (∃ stop, w.rangeEndTs = some stop ∧ hi.asi8 ≤ stop) ∧
      out = df.loc lo.asi8 hi.asi8 := by
  obtain ⟨reqStart, hlo, h⟩ := Result.bind_eq_ok.mp h
  obtain ⟨reqEnd, hhi, h⟩ := Result.bind_eq_ok.mp h
  obtain ⟨current, hcurrent, h⟩ := Result.bind_eq_ok.mp h
  obtain ⟨covers, hcovers, h⟩ := Result.bind_eq_ok.mp h
  rw [Result.mapError_eq_ok] at hlo hhi hcovers
  cases covers with
  | none => cases h
  | some bounds =>
    obtain ⟨start, stop, lo, hi, hstart, hstop, rfl, rfl, hfrom, hto, rfl⟩ :=
      covered_eq_some hcovers
    cases hdf : current.df with
    | none =>
      simp only [hdf] at h
      cases h
    | some df =>
      simp only [hdf] at h
      cases h
      obtain ⟨w, hw, hasks, hwstart, hwstop, hwdf⟩ := lookupCurrent_of_orMiss hcurrent hstart
      exact ⟨lo, hi, w, df, hlo, hhi, hw, hasks, hwdf.trans (congrArg _ hdf),
        ⟨start, hwstart.trans hstart, hfrom⟩, ⟨stop, hwstop.trans hstop, hto⟩, rfl⟩

/-- **What is not a number is not stored**: the database refuses the records of such a
frame, and the refresh fails. -/
theorem StoredBy.not_special {timestamp : String → Except PyError Timestamp} {call : Refresh F}
    {w : Window F} {s e : Timestamp} {f : ProviderFrame F} (hby : StoredBy timestamp call w s e f)
    {name : String} {xs : List (Scalar F)} (hxs : f.frame.cells name = some xs) {v : Scalar F}
    (hv : v ∈ xs) : ¬Jsonb.Special v := by
  obtain ⟨records, hrecords, hcast⟩ := hby.payload
  obtain ⟨df, hreset, hrecords⟩ := Result.bind_eq_ok.mp hrecords
  cases hrecords
  obtain ⟨hnone, -, -, hcells⟩ := Frame.resetIndex_eq_ok hreset
  have hname : name ≠ "datetime" := by
    rintro rfl
    cases hnone.symm.trans hxs
  obtain ⟨r, hr, hmem⟩ := Frame.exists_record (((hcells name).trans (if_neg hname)).trans hxs) hv
  exact (Jsonb.cast_eq_ok hcast).2 r hr _ hmem

/-! ## The tables of the store -/

/-- The series and the ids of the open versions. -/
def openVersions (t : ApiRequestTables) : List (RequestKey × ℕ) :=
  (t.requests.filter fun r => r.transactToTs = ⊤).map fun r => (r.toRequestKey, r.apiReqId)

/-- A version that `SP_INS_API_REQUEST` writes takes the place of the open one of its id. -/
theorem openVersions_insert {t t' : ApiRequestTables} {f : Faults} {now : ℤ} {a : ApiRequestArgs}
    {row : OutRow Unit} (hins : spInsApiRequest f now a t = .ok (row, t'))
    (hok : row.sqlstate = "00000") {apiReqId : ℕ} (hid : a.apiReqId = some apiReqId) :
    openVersions t' = (a.key, apiReqId) :: (openVersions t).filter fun v => v.2 ≠ apiReqId := by
  obtain ⟨r, hrid, hrkey, hopen, hrequests⟩ := spInsApiRequest_success hins hok
  cases hid.symm.trans hrid
  have hclosed : (ApiRequestRow.table.closeOpen now (some r.apiReqId) t.requests).filter
      (fun v => v.transactToTs = ⊤) = t.requests.filter fun v => v.transactToTs = ⊤ ∧
        some v.apiReqId ≠ some r.apiReqId :=
    ApiRequestRow.table.filter_closeOpen now _ t.requests
  unfold openVersions
  rw [hrequests, List.filter_cons]
  simp only [hopen, decide_true, if_true, List.map_cons, hrkey, hclosed]
  rw [List.filter_map, List.filter_filter]
  refine congrArg _ (congrArg _ (List.filter_congr fun v _ => ?_))
  simp [and_comm]

/-- The open versions of the tables are those of the store. -/
def Shows (t : ApiRequestTables) (store : List (Window F)) : Prop :=
  (openVersions t).Perm (store.map fun w => (w.key, w.apiReqId))

omit [JsonFloat F] in
/-- **The store keeps up with the tables**: a version that `SP_INS_API_REQUEST` writes closes
and opens in the tables what it does in the store. -/
theorem Shows.insert {t t' : ApiRequestTables} {store : List (Window F)} (h : Shows t store)
    {f : Faults} {now : ℤ} {a : ApiRequestArgs} {row : OutRow Unit}
    (hins : spInsApiRequest f now a t = .ok (row, t')) (hok : row.sqlstate = "00000")
    {w : Window F} (hid : a.apiReqId = some w.apiReqId) (hkey : a.key = w.key) :
    Shows t' (store.filter (fun v => v.apiReqId ≠ w.apiReqId) ++ [w]) := by
  have hother := h.filter fun v => v.2 ≠ w.apiReqId
  rw [List.filter_map] at hother
  rw [Shows, openVersions_insert hins hok hid, hkey, List.map_append]
  exact (hother.cons _).trans (List.perm_append_singleton _ _).symm

/-! ## Runs of refreshes -/

/-- The store after a refresh: one that fails leaves it as it was. -/
def afterRefresh (timestamp : String → Except PyError Timestamp) (store : List (Window F))
    (call : Refresh F) : List (Window F) :=
  match refreshPayload timestamp store call with
  | .ok r => r.2
  | .error _ => store

/-- The store after refreshes, one after the other, that began with none. -/
def refreshes (timestamp : String → Except PyError Timestamp) (calls : List (Refresh F)) :
    List (Window F) :=
  calls.foldl (afterRefresh timestamp) []

variable {timestamp : String → Except PyError Timestamp} {store : List (Window F)}
  {calls : List (Refresh F)} {call : Refresh F}

/-- A refresh leaves the store as it was, or puts one window in the place of the one that had its
id. It is the first where anything fails before the write. -/
theorem afterRefresh_cases (timestamp : String → Except PyError Timestamp)
    (store : List (Window F)) (call : Refresh F) :
    afterRefresh timestamp store call = store ∨
      ∃ current w s e f, lookupCurrent call.readFault store call.key = .ok current ∧
        StoredBy timestamp call w s e f ∧ w.apiReqId = current.apiReqId.getD call.generated ∧
        afterRefresh timestamp store call =
          store.filter (fun v => v.apiReqId ≠ w.apiReqId) ++ [w] := by
  unfold afterRefresh
  cases h : refreshPayload timestamp store call with
  | error e => exact Or.inl rfl
  | ok r =>
    obtain ⟨hstore, -⟩ | ⟨current, w, s, e, f, hcurrent, hby, hid, hstore, -⟩ :=
      refreshPayload_eq_ok h
    · exact Or.inl hstore
    · exact Or.inr ⟨current, w, s, e, f, hcurrent, hby, hid, hstore⟩

/-- A refresh of a named product keeps the series apart: the version that it finds is the one
that it closes. -/
theorem oneOpen_append {current : Current F} {w : Window F} (hone : OneOpen store)
    (hnamed : call.Named) (hcurrent : lookupCurrent call.readFault store call.key = .ok current)
    (hkey : w.key = call.key) (hid : w.apiReqId = current.apiReqId.getD call.generated) :
    OneOpen (store.filter (fun v => v.apiReqId ≠ w.apiReqId) ++ [w]) := by
  refine List.pairwise_append.mpr ⟨hone.filter _, List.pairwise_singleton _ _, fun v hv x hx => ?_⟩
  obtain rfl := List.mem_singleton.mp hx
  obtain ⟨hv, hvid⟩ := List.mem_filter.mp hv
  intro heq
  have hasks : Asks call.key v.key := (asks_iff hnamed v.key).mpr (heq.trans hkey)
  obtain ⟨hnil, -⟩ | ⟨v', rest, df, hfilter, -, rfl⟩ := lookupCurrent_eq_ok hcurrent
  · exact absurd (decide_eq_true hasks) (List.filter_eq_nil_iff.mp hnil v hv)
  · have hsingle := filter_asks hone hnamed hv (heq.trans hkey)
    rw [hsingle] at hfilter
    cases hfilter
    exact absurd hid.symm (of_decide_eq_true hvid)

/-- **Refreshes of named products leave one version of each series.** Each of them closes the open
version of its series, and of no other, before it inserts the next one. -/
theorem oneOpen_refreshes (h : ∀ c ∈ calls, c.Named) : OneOpen (refreshes timestamp calls) := by
  refine List.foldlRecOn calls (afterRefresh timestamp) List.Pairwise.nil
    fun store hone call hc => ?_
  obtain hstore | ⟨current, w, s, e, f, hcurrent, hby, hid, hstore⟩ :=
    afterRefresh_cases timestamp store call
  · rwa [hstore]
  · rw [hstore]
    exact oneOpen_append hone (h call hc) hcurrent hby.key hid

/-- **Each version is one that a refresh of the run stored.** So what is read later can be traced
to one call, with the frame that its fetch returned and the range that it was asked for. -/
theorem storedBy_refreshes :
    ∀ w ∈ refreshes timestamp calls, ∃ call ∈ calls, ∃ s e f, StoredBy timestamp call w s e f := by
  refine List.foldlRecOn (motive := fun store => ∀ w ∈ store, ∃ call ∈ calls, ∃ s e f,
    StoredBy timestamp call w s e f) calls (afterRefresh timestamp) (fun w hw => nomatch hw)
    fun store hall call hc => ?_
  obtain hstore | ⟨current, w, s, e, f, hcurrent, hby, hid, hstore⟩ :=
    afterRefresh_cases timestamp store call
  · rwa [hstore]
  · rw [hstore]
    intro v hv
    rcases List.mem_append.mp hv with hv | hv
    · exact hall v (List.mem_of_mem_filter hv)
    · obtain rfl := List.mem_singleton.mp hv
      exact ⟨call, hc, s, e, f, hby⟩

/-! ## The round trip of the cache -/

/-- A refresh of whole seconds: the bounds of its range, and the stamps of what it fetches. And
the numbers that it fetches are below `10 ^ 16`, with no integers in their columns. -/
structure Whole (timestamp : String → Except PyError Timestamp) (call : Refresh F) : Prop where
  /-- The range begins on a whole second. -/
  start : ∀ s, toUtc timestamp call.rangeStart = .ok (some s) → WholeSeconds s.asi8
  /-- And ends on one. -/
  stop : ∀ e, toUtc timestamp call.rangeEnd = .ok (some e) → WholeSeconds e.asi8
  /-- The times of what is fetched are whole seconds, which bars of at least a second are. -/
  stamps : ∀ f, call.fetcher call.rangeStart call.rangeEnd = .ok (some f) →
    ∀ t ∈ f.frame.index, WholeSeconds t
  /-- Its numbers come back from the document as they went in. -/
  numbers : ∀ f, call.fetcher call.rangeStart call.rangeEnd = .ok (some f) →
    ∀ n xs, f.frame.cells n = some xs → Jsonb.Kept xs

/-- A version of whole seconds has the range that was asked for, and the rows that were
fetched. -/
theorem StoredBy.of_whole {w : Window F} {s e : Timestamp} {f : ProviderFrame F}
    (hby : StoredBy timestamp call w s e f) (hwhole : Whole timestamp call) :
    w.rangeStartTs = some s.asi8 ∧ w.rangeEndTs = some e.asi8 ∧
      ∃ df, payloadToDf w.payload = .ok (some df) ∧ Frame.SameRows df f.frame := by
  obtain ⟨records, hrecords, hcast⟩ := hby.payload
  refine ⟨?_, ?_, payloadToDf_payloadRecords hby.nonempty (hwhole.stamps f hby.fetched)
    (hwhole.numbers f hby.fetched) hrecords hcast⟩
  · rw [hby.rangeStartTs, Int.mul_ediv_cancel' (hwhole.start s hby.start)]
  · rw [hby.rangeEndTs, Int.mul_ediv_cancel' (hwhole.stop e hby.stop)]

/-- The version that a refresh opened is the one that a lookup of its series finds. -/
theorem lookupCurrent_of_storedBy {w : Window F} {s e : Timestamp} {f : ProviderFrame F}
    (hone : OneOpen store) (hw : w ∈ store) (hby : StoredBy timestamp call w s e f)
    (hwhole : Whole timestamp call) {req : Request} (hnamed : req.Named)
    (hkey : req.key = call.key) :
    ∃ df, lookupCurrent none store req.key =
        .ok ⟨some w.apiReqId, some s.asi8, some e.asi8, some df⟩ ∧
      Frame.SameRows df f.frame := by
  obtain ⟨hstart, hstop, df, hdf, hsame⟩ := hby.of_whole hwhole
  refine ⟨df, ?_, hsame⟩
  have hget : getApiRequest none store req.key = .ok [w] :=
    congrArg Except.ok (filter_asks hone hnamed hw (hby.key.trans hkey.symm))
  rw [lookupCurrent, hget]
  show ((payloadToDf w.payload).mapError CacheError.py >>= _) = _
  rw [hdf, ← hstart, ← hstop]
  rfl

/-- **The round trip of the cache**, after refreshes one after the other, for stamps and
ranges of whole seconds. What a refresh of a named product stored is what a read of a range
within its own answers from; and a read that answers at all answers with the rows of a
refresh that asked for the range, and more. -/
theorem roundTrip (timestamp : String → Except PyError Timestamp) (calls : List (Refresh F)) :
    ((∀ c ∈ calls, c.Named) → ∀ (call : Refresh F) (out : Option (Frame ℤ (Scalar F)))
        (store : List (Window F)) (f : ProviderFrame F) (req : Request) (s e lo hi : Timestamp),
      call.Named → Whole timestamp call →
      refreshPayload timestamp (refreshes timestamp calls) call = .ok (out, store) →
      call.fetcher call.rangeStart call.rangeEnd = .ok (some f) → f.isEmpty = false →
      toUtc timestamp call.rangeStart = .ok (some s) →
      toUtc timestamp call.rangeEnd = .ok (some e) → req.key = call.key →
      toUtc timestamp req.rangeStart = .ok (some lo) →
      toUtc timestamp req.rangeEnd = .ok (some hi) → s.asi8 ≤ lo.asi8 → hi.asi8 ≤ e.asi8 →
      ∃ df, readPayload timestamp none store req = .ok df ∧
        Frame.SameRows df (f.frame.loc lo.asi8 hi.asi8)) ∧
    ((∀ c ∈ calls, Whole timestamp c) → ∀ (fault : Option CallError) (req : Request)
        (df : Frame ℤ (Scalar F)),
      readPayload timestamp fault (refreshes timestamp calls) req = .ok df →
      ∃ call ∈ calls, ∃ s e lo hi f, Asks req.key call.key ∧
        toUtc timestamp call.rangeStart = .ok (some s) ∧
        toUtc timestamp call.rangeEnd = .ok (some e) ∧
        call.fetcher call.rangeStart call.rangeEnd = .ok (some f) ∧
        toUtc timestamp req.rangeStart = .ok (some lo) ∧
        toUtc timestamp req.rangeEnd = .ok (some hi) ∧ s.asi8 ≤ lo.asi8 ∧ hi.asi8 ≤ e.asi8 ∧
        Frame.SameRows df (f.frame.loc lo.asi8 hi.asi8)) := by
  constructor
  · intro hcalls call out store f req s e lo hi hnamed hwhole h hf hne hs he hkey hlo hhi hfrom hto
    have hreq : req.Named := by
      have hcusip : req.internalCusip = call.internalCusip :=
        congrArg RequestKey.internalCusip hkey
      rw [Request.Named, hcusip]
      exact hnamed
    obtain ⟨-, -, hempty⟩ | ⟨current, w, s', e', f', hcurrent, hby, hid, hstore, -⟩ :=
      refreshPayload_eq_ok h
    · exact absurd (hempty f hf) (by rw [hne]; decide)
    · have hone : OneOpen store := hstore ▸ oneOpen_append (oneOpen_refreshes hcalls) hnamed
        hcurrent hby.key hid
      have hw : w ∈ store := hstore ▸ List.mem_append_right _ (List.mem_singleton.mpr rfl)
      cases hs.symm.trans hby.start
      cases he.symm.trans hby.stop
      cases hf.symm.trans hby.fetched
      obtain ⟨df, hlookup, hsame⟩ := lookupCurrent_of_storedBy hone hw hby hwhole hreq hkey
      exact ⟨_, readPayload_of_current hlo hhi hlookup rfl rfl rfl hfrom hto, hsame.select _⟩
  · intro hcalls fault req df h
    obtain ⟨lo, hi, w, df', hlo, hhi, hw, hasks, hdf', ⟨start, hstart, hfrom⟩,
      ⟨stop, hstop, hto⟩, rfl⟩ := readPayload_eq_ok h
    obtain ⟨call, hc, s, e, f, hby⟩ := storedBy_refreshes w hw
    obtain ⟨hs, he, df, hdf, hsame⟩ := hby.of_whole (hcalls call hc)
    cases hstart.symm.trans hs
    cases hstop.symm.trans he
    cases hdf'.symm.trans hdf
    exact ⟨call, hc, s, e, lo, hi, f, hby.key ▸ hasks, hby.start, hby.stop, hby.fetched, hlo, hhi,
      hfrom, hto, hsame.select _⟩

/-- `pd.Timestamp(s)`, of a date, or of a time with tenths of a second. -/
def readTimestamp (s : String) : Except PyError Timestamp :=
  let time := if s.length = 10 then s ++ " 00:00:00.0" else s
  let tenths := Civil.value (time.toList.getLastD (Civil.figure 0))
  match Civil.strptime (String.ofList (time.toList.take 19)) with
  | some t =>
    if h : InRange (10 ^ 9 * t + 10 ^ 8 * tenths) then .ok ⟨10 ^ 9 * t + 10 ^ 8 * tenths, none, h⟩
    else .error (.valueError "Out of bounds nanosecond timestamp")
  | none => .error (.valueError "could not convert string to Timestamp")

/-- The first day of 2024, and the second. -/
def january (n : ℤ) : ℤ := 10 ^ 9 * (1704067200 + 86400 * n)

/-- Two days of prices. -/
def dailyFrame (first second : ℚ) : ProviderFrame ExtRat where
  frame := ⟨[january 0, january 1],
    [("price", ⟨[.number (.fin first), .number (.fin second)], rfl⟩),
      ("Open", ⟨[.number (.fin 7), .number (.fin 8)], rfl⟩)]⟩
  tz := none
  inRange := show ∀ t ∈ [january 0, january 1], InRange t by decide
  sorted := show [january 0, january 1].Pairwise (· ≤ ·) by decide
  nodup := show ["price", "Open"].Nodup by decide

/-- Prices below `10 ^ 16` come back. -/
theorem kept_dailyFrame {first second : ℚ} (h : |first| < 10 ^ 16) (h' : |second| < 10 ^ 16)
    {n : String} {xs : List (Scalar ExtRat)}
    (hxs : (dailyFrame first second).frame.cells n = some xs) : Jsonb.Kept xs := by
  have hbelow {q : ℚ} (hq : |q| < 10 ^ 16) :
      le (lit (10 ^ 16)) (NpFloat.abs (.fin q : ExtRat)) = false := by
    have habs : (if q < 0 then -q else q) < 10 ^ 16 := by
      split
      · exact (neg_le_abs q).trans_lt hq
      · exact (le_abs_self q).trans_lt hq
    exact Bool.or_eq_false_iff.mpr ⟨decide_eq_false habs.not_gt,
      decide_eq_false fun h => habs.ne' (ExtRat.fin.inj h.1)⟩
  have hpair {q q' : ℚ} (hq : |q| < 10 ^ 16) (hq' : |q'| < 10 ^ 16) :
      Jsonb.Kept [.number (.fin q : ExtRat), .number (.fin q')] := by
    refine ⟨fun x hx => ?_, fun x n _ hn => by simp at hn⟩
    obtain hx | hx := List.mem_pair.mp hx
    · cases hx
      exact hbelow hq
    · cases hx
      exact hbelow hq'
  obtain ⟨c, hc, rfl⟩ := Option.map_eq_some_iff.mp hxs
  obtain hc | hc := List.mem_pair.mp (FirstWins.mem_of_lookup hc)
  · cases hc
    exact hpair h h'
  · cases hc
    exact hpair (by norm_num) (by norm_num)

/-- A price within a second. -/
def tenthsFrame : ProviderFrame ExtRat where
  frame := ⟨[january 0 + 5 * 10 ^ 8], [("price", ⟨[.number (.fin 7)], rfl⟩)]⟩
  tz := some "Asia/Hong_Kong"
  inRange := by decide
  sorted := by decide
  nodup := by decide

/-- No prices. -/
def noFrame : ProviderFrame ExtRat where
  frame := ⟨[], [("price", ⟨[], rfl⟩)]⟩
  tz := none
  inRange := by decide
  sorted := by decide
  nodup := by decide

/-- A refresh that is sent a frame. -/
def refreshOf (internalCusip : Option String) (rangeStart rangeEnd : String)
    (f : ProviderFrame ExtRat) (generated : ℕ) : Refresh ExtRat where
  appId := 1
  appMetricId := 2
  internalCusip := internalCusip
  rangeStart := rangeStart
  rangeEnd := rangeEnd
  tmIntervalId := none
  defaultTmIntervalId := 3
  fetcher _ _ := .ok (some f)
  generated := generated
  readFault := none
  writeFault := none

/-- A refresh of one product, and of another. -/
def btc : Refresh ExtRat :=
  refreshOf (some "BTC") "2024-01-01" "2024-01-02" (dailyFrame 1 2) 1

@[inherit_doc btc]
def eth : Refresh ExtRat :=
  refreshOf (some "ETH") "2024-01-01" "2024-01-02" (dailyFrame 3 4) 2

/-- The bounds of their range. -/
def firstDay : Timestamp := ⟨january 0, some "UTC", by decide⟩

@[inherit_doc firstDay]
def secondDay : Timestamp := ⟨january 1, some "UTC", by decide⟩

/-- A product that was refreshed, and one that is refreshed after it: a read of its first day
comes back, and so does a read of the other one. -/
theorem twoProducts_roundTrip :
    (∃ out store df, refreshPayload readTimestamp (refreshes readTimestamp [btc]) eth =
        .ok (out, store) ∧
      readPayload readTimestamp none store { eth.toRequest with rangeEnd := "2024-01-01" } =
        .ok df ∧
      Frame.SameRows df ((dailyFrame 3 4).frame.loc (january 0) (january 0))) ∧
    ∃ df, readPayload readTimestamp none (refreshes readTimestamp [btc]) btc.toRequest = .ok df ∧
      ∃ call ∈ [btc], ∃ s e lo hi f, Asks btc.key call.key ∧
        toUtc readTimestamp call.rangeStart = .ok (some s) ∧
        toUtc readTimestamp call.rangeEnd = .ok (some e) ∧
        call.fetcher call.rangeStart call.rangeEnd = .ok (some f) ∧
        toUtc readTimestamp btc.rangeStart = .ok (some lo) ∧
        toUtc readTimestamp btc.rangeEnd = .ok (some hi) ∧ s.asi8 ≤ lo.asi8 ∧ hi.asi8 ≤ e.asi8 ∧
        Frame.SameRows df (f.frame.loc lo.asi8 hi.asi8) := by
  have hfirst : toUtc readTimestamp "2024-01-01" = .ok (some firstDay) := by decide +kernel
  have hsecond : toUtc readTimestamp "2024-01-02" = .ok (some secondDay) := by decide +kernel
  have hwhole {first second : ℚ} (h : |first| < 10 ^ 16) (h' : |second| < 10 ^ 16)
      (cusip : String) (generated : ℕ) : Whole readTimestamp
      (refreshOf (some cusip) "2024-01-01" "2024-01-02" (dailyFrame first second) generated) := by
    refine ⟨fun s hs => ?_, fun e he => ?_, fun f hf => ?_, fun f hf n xs hxs => ?_⟩
    · cases hs.symm.trans hfirst
      decide
    · cases he.symm.trans hsecond
      decide
    · cases hf
      show ∀ t ∈ [january 0, january 1], WholeSeconds t
      decide
    · cases hf
      exact kept_dailyFrame h h' hxs
  constructor
  · obtain ⟨r, hr⟩ : ∃ r, (refreshPayload readTimestamp (refreshes readTimestamp [btc])
        eth).toOption = some r := Option.isSome_iff_exists.mp (by decide +kernel)
    have hr := Result.toOption_eq_some.mp hr
    obtain ⟨df, hread, hsame⟩ := (roundTrip readTimestamp [btc]).1 (by simp [btc, refreshOf,
      Request.Named]) eth r.1 r.2 (dailyFrame 3 4)
      { eth.toRequest with rangeEnd := "2024-01-01" } firstDay secondDay firstDay firstDay
      (by simp [eth, refreshOf, Request.Named]) (hwhole (by norm_num) (by norm_num) "ETH" 2) hr
      rfl rfl hfirst hsecond rfl hfirst hfirst (by decide) (by decide)
    exact ⟨r.1, r.2, df, hr, hread, hsame⟩
  · obtain ⟨df, hdf⟩ : ∃ df, (readPayload readTimestamp none (refreshes readTimestamp [btc])
        btc.toRequest).toOption = some df := Option.isSome_iff_exists.mp (by decide +kernel)
    have hdf := Result.toOption_eq_some.mp hdf
    exact ⟨df, hdf, (roundTrip readTimestamp [btc]).2
      (fun c hc => List.mem_singleton.mp hc ▸ 
        hwhole (by norm_num) (by norm_num) "BTC" 1) none btc.toRequest df hdf⟩

/-- Where it does not come back: nothing that was sent is not stored, and not read; a stamp
within a second is read as the second; a range that begins within a second is taken to begin
with it; the columns have the order of the database; a read that names no product is answered
from another one; and numbers from `10 ^ 16` on are read as the integers they are written as. -/
theorem differs_after_refresh :
    (let call := refreshOf (some "BTC") "2024-01-01" "2024-01-02" noFrame 1
     (refreshPayload readTimestamp [] call).isOk = true ∧
       (readPayload readTimestamp none (afterRefresh readTimestamp [] call)
         call.toRequest).isOk = false) ∧
    (let call := refreshOf (some "BTC") "2024-01-01" "2024-01-02" tenthsFrame 1
     (readPayload readTimestamp none (afterRefresh readTimestamp [] call)
         call.toRequest).toOption.map Frame.index = some [january 0] ∧
       (tenthsFrame.frame.loc (january 0) (january 1)).index = [january 0 + 5 * 10 ^ 8]) ∧
    (let call := refreshOf (some "BTC") "2024-01-01 00:00:00.5" "2024-01-02" (dailyFrame 1 2) 1
     (readPayload readTimestamp none (afterRefresh readTimestamp [] call)
       { call.toRequest with rangeStart := "2024-01-01" }).isOk = true) ∧
    (readPayload readTimestamp none (refreshes readTimestamp [btc]) btc.toRequest).toOption.map
        (fun df => df.columns.map Prod.fst) = some ["Open", "price"] ∧
    (let call := refreshOf none "2024-01-01" "2024-01-02" (dailyFrame 5 6) 3
     let store := afterRefresh readTimestamp (refreshes readTimestamp [btc, eth]) call
     (readPayload readTimestamp none store call.toRequest).toOption.bind
         (fun df => df.cells "price") = some [.number (.fin 3), .number (.fin 4)]) ∧
    (let call := refreshOf (some "BTC") "2024-01-01" "2024-01-02" (dailyFrame (2 ^ 62) (2 ^ 63)) 1
     (readPayload readTimestamp none (afterRefresh readTimestamp [] call)
         call.toRequest).toOption.bind (fun df => df.cells "price") =
       some [.integer 4611686018427388000, .integer 9223372036854776000]) := by
  refine ⟨⟨?_, ?_⟩, ⟨?_, ?_⟩, ?_, ?_, ?_, ?_⟩ <;> decide +kernel

end BacktestCache
