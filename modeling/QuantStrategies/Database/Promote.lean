import QuantStrategies.Database.Backtest
import QuantStrategies.Lib.ReadCommitted
import QuantStrategies.Lib.Transition

/-!
# The best version of a strategy

One version of a strategy carries the flag of the best. The first version gets it when it
is inserted. `SP_UPD_PROMOTE_STRATEGY` moves it to a version, or takes it from the one
that has it: then version 1 gets it back. A logical delete leaves the flag alone.

One call after another, a strategy has exactly one best version at any time: the one
that was promoted last.

A procedure is a list of statements over the rows of one strategy (`Local`), so that the
rows of every other are out of its reach by construction. What it does to the flag is said
by `BestIs`, which has one form for promotion, demotion and insertion, and the run is an
induction over the calls.
-/

namespace Database

open ReadCommitted

namespace StrategyRow

/-- The primary key. -/
def pk (v : StrategyRow) : ℕ × ℕ := (v.strategyId, v.strategyVid)

/-- A row of a strategy. -/
def isOf (strategyId : ℕ) (v : StrategyRow) : Bool := v.strategyId = strategyId

/-- A version of a strategy. -/
def isVersion (strategyId : ℕ) (strategyVid : ℤ) (v : StrategyRow) : Bool :=
  v.strategyId = strategyId && (v.strategyVid : ℤ) = strategyVid

/-- A row that is flagged as the best of a strategy. -/
def isBest (strategyId : ℕ) (v : StrategyRow) : Bool :=
  v.strategyId = strategyId && v.isBestInd = 'Y'

end StrategyRow

/-! ## The procedures -/

/-- Demote the current best. -/
def demoteBest (strategyId : ℕ) : Update StrategyRow where
  selects := StrategyRow.isBest strategyId
  unlessExists _ := false
  set v := { v with isBestInd := 'N' }

/-- Promote a version. -/
def promoteTarget (strategyId : ℕ) (strategyVid : ℤ) : Update StrategyRow where
  selects := StrategyRow.isVersion strategyId strategyVid
  unlessExists _ := false
  set v := { v with isBestInd := 'Y' }

/-- Version 1 is the best again when there is none. -/
def restoreFirst (strategyId : ℕ) : Update StrategyRow where
  selects := StrategyRow.isVersion strategyId 1
  unlessExists := StrategyRow.isBest strategyId
  set v := { v with isBestInd := 'Y' }

/-- `SP_UPD_PROMOTE_STRATEGY` without a version. -/
def demoteOnly (strategyId : ℕ) : Proc StrategyRow (OutRow Unit) :=
  .update (demoteBest strategyId) <| .update (restoreFirst strategyId) <| .aside <|
    .answer ⟨"00000", "Demoted current best — VID 1 restored as default best when needed", ()⟩

/-- The updates of `SP_UPD_PROMOTE_STRATEGY` with a version. -/
def moveBest (strategyId : ℕ) (strategyVid : ℤ) : Proc StrategyRow (OutRow Unit) :=
  .update (demoteBest strategyId) <| .update (promoteTarget strategyId strategyVid) <|
    .aside <| .answer (OutRow.success ())

/-- The second test of `SP_UPD_PROMOTE_STRATEGY`. -/
def moveUnlessBest (strategyId : ℕ) (strategyVid : ℤ) : Proc StrategyRow (OutRow Unit) :=
  .ifExists (fun v => v.isVersion strategyId strategyVid && v.isBestInd = 'Y')
    (.answer ⟨"00000", "Target VID is already the best — no change", ()⟩)
    (moveBest strategyId strategyVid)

/-- `SP_UPD_PROMOTE_STRATEGY`, from step 15 on. -/
def promote (strategyId : ℕ) : Option ℤ → Proc StrategyRow (OutRow Unit)
  | none => demoteOnly strategyId
  | some strategyVid => .ifExists (StrategyRow.isVersion strategyId strategyVid)
      (moveUnlessBest strategyId strategyVid)
      (.answer ⟨"02000", "Target VID does not exist for this STRATEGY_ID", ()⟩)

/-- The arguments of `SP_UPD_PROMOTE_STRATEGY`. -/
structure PromoteArgs where
  /-- The strategy. -/
  strategyId : Option ℕ
  /-- The version that is to be the best, or none to take the flag away. -/
  strategyVid : Option ℤ

/-- `SP_UPD_PROMOTE_STRATEGY`. -/
def spUpdPromoteStrategy (refused : ℕ → Option SqlError) (a : PromoteArgs) :
    Sql (List StrategyRow) (OutRow Unit) :=
  Sql.block
    (match a.strategyId with
      | none => pure ⟨"22023", "IN_STRATEGY_ID is required", ()⟩
      | some strategyId => (promote strategyId a.strategyVid).sql refused 0)
    (OutRow.failure ())

/-- Set the flag of a logical delete. -/
def setDeleted (selects : StrategyRow → Bool) (ind : Char) : Update StrategyRow where
  selects := selects
  unlessExists _ := false
  set v := { v with logicalDeleteInd := ind }

/-- `SP_UPD_STRATEGY_LOGICAL_DELETE`, from step 20 on. -/
def logicalDelete (strategyId : ℕ) (ind : Char) : Option ℤ → Proc StrategyRow (OutRow Unit)
  | some strategyVid => .ifExists (StrategyRow.isVersion strategyId strategyVid)
      (.update (setDeleted (StrategyRow.isVersion strategyId strategyVid) ind) <|
        .aside <| .answer (OutRow.success ()))
      (.answer ⟨"02000", "Target VID does not exist for this STRATEGY_ID", ()⟩)
  | none => .ifExists (StrategyRow.isOf strategyId)
      (.update (setDeleted (StrategyRow.isOf strategyId) ind) <|
        .aside <| .answer (OutRow.success ()))
      (.answer ⟨"02000", "STRATEGY_ID does not exist", ()⟩)

/-- The arguments of `SP_UPD_STRATEGY_LOGICAL_DELETE`. -/
structure LogicalDeleteArgs where
  /-- The strategy. -/
  strategyId : Option ℕ
  /-- Its version. -/
  strategyVid : Option ℤ
  /-- Whether it is to be deleted. -/
  logicalDeleteInd : Option Char

/-- `SP_UPD_STRATEGY_LOGICAL_DELETE`. -/
def spUpdStrategyLogicalDelete (refused : ℕ → Option SqlError) (a : LogicalDeleteArgs) :
    Sql (List StrategyRow) (OutRow Unit) :=
  Sql.block
    (match a.strategyId, a.logicalDeleteInd with
      | none, _ => pure ⟨"22023", "IN_STRATEGY_ID is required", ()⟩
      | some _, none => pure ⟨"22023", "IN_LOGICAL_DELETE_IND is required", ()⟩
      | some strategyId, some ind => (logicalDelete strategyId ind a.strategyVid).sql refused 0)
    (OutRow.failure ())

/-! ## Calls -/

/-- A call of one of the procedures that write strategies, with the errors that the
server raises in the later two, by statement. -/
inductive StrategyCall where
  | spInsStrategy (now : ℤ) (generated : ℕ) (a : StrategyArgs)
  | spUpdPromoteStrategy (refused : ℕ → Option SqlError) (a : PromoteArgs)
  | spUpdStrategyLogicalDelete (refused : ℕ → Option SqlError) (a : LogicalDeleteArgs)

/-- The strategies, and the version of each that was promoted last: none when none was,
or when the last flip took the flag away. -/
structure Strategies where
  /-- The versions of all strategies. -/
  rows : List StrategyRow
  /-- The version of each that was promoted last. -/
  promoted : ℕ → Option ℤ

/-- A call. -/
def StrategyCall.write (f : Faults) (s : Strategies) : StrategyCall → Strategies
  | spInsStrategy now generated a =>
    { s with rows := (callWrite f (Database.spInsStrategy f now generated a) s.rows).2 }
  | spUpdPromoteStrategy refused a =>
    let written := callWrite f (Database.spUpdPromoteStrategy refused a) s.rows
    { rows := written.2
      promoted :=
        match written.1, a.strategyId with
        | .ok _, some strategyId => Function.update s.promoted strategyId a.strategyVid
        | _, _ => s.promoted }
  | spUpdStrategyLogicalDelete refused a =>
    { s with rows := (callWrite f (Database.spUpdStrategyLogicalDelete refused a) s.rows).2 }

/-- One call after another, from an empty table. -/
def strategyCalls : Machine Strategies (Faults × StrategyCall) where
  Init s := s.rows = [] ∧ s.promoted = fun _ => none
  step s l := some (l.2.write l.1 s)

/-- A strategy has exactly one row that is flagged as the best: that of a version. -/
def OneBest (rows : List StrategyRow) (strategyId : ℕ) (strategyVid : ℤ) : Prop :=
  ∃ v, rows.filter (StrategyRow.isBest strategyId) = [v] ∧ (v.strategyVid : ℤ) = strategyVid

/-- A version of a strategy is there, and it alone is flagged as the best. -/
structure BestIs (rows : List StrategyRow) (strategyId : ℕ) (strategyVid : ℤ) : Prop where
  /-- It is there. -/
  exists_row : ∃ v ∈ rows, v.isVersion strategyId strategyVid = true
  /-- It is flagged, and no other version of the strategy is. -/
  flagged : ∀ v ∈ rows, v.strategyId = strategyId →
    (v.isBestInd = 'Y' ↔ (v.strategyVid : ℤ) = strategyVid)

variable {rows rows' : List StrategyRow} {id id' : ℕ} {vid b : ℤ}

theorem isVersion_iff {v : StrategyRow} :
    v.isVersion id vid = true ↔ v.strategyId = id ∧ (v.strategyVid : ℤ) = vid := by
  simp [StrategyRow.isVersion]

theorem isBest_iff {v : StrategyRow} :
    v.isBest id = true ↔ v.strategyId = id ∧ v.isBestInd = 'Y' := by
  simp [StrategyRow.isBest]

/-! ## The best of a strategy -/

/-- The best version has the one row that is flagged. -/
theorem BestIs.oneBest (h : BestIs rows id vid) (hkeys : (rows.map StrategyRow.pk).Nodup) :
    OneBest rows id vid := by
  obtain ⟨v, hv, hvid⟩ := h.exists_row
  obtain ⟨hid, hvid⟩ := isVersion_iff.mp hvid
  have hmem : v ∈ rows.filter (StrategyRow.isBest id) :=
    List.mem_filter.mpr ⟨hv, isBest_iff.mpr ⟨hid, (h.flagged v hv hid).mpr hvid⟩⟩
  have hsame (w : StrategyRow) (hw : w ∈ rows.filter (StrategyRow.isBest id)) : w = v := by
    obtain ⟨hw, hbest⟩ := List.mem_filter.mp hw
    obtain ⟨hwid, hflag⟩ := isBest_iff.mp hbest
    have hwvid := (h.flagged w hw hwid).mp hflag
    exact List.inj_on_of_nodup_map hkeys hw hv (Prod.ext (hwid.trans hid.symm)
      (Int.ofNat_inj.mp (hwvid.trans hvid.symm)))
  refine ⟨v, ?_, hvid⟩
  have hnodup : (rows.filter (StrategyRow.isBest id)).Nodup := hkeys.of_map.filter _
  generalize rows.filter (StrategyRow.isBest id) = flagged at hmem hsame hnodup
  match flagged with
  | [w] => rw [hsame w List.mem_cons_self]
  | w :: w' :: rest =>
    have hw := hsame w List.mem_cons_self
    have hw' := hsame w' (List.mem_cons_of_mem w List.mem_cons_self)
    rw [hw, hw'] at hnodup
    exact absurd List.mem_cons_self (List.nodup_cons.mp hnodup).1

/-- The best of a strategy turns on its own rows. -/
theorem BestIs.congr (h : BestIs rows id vid)
    (hrows : rows'.filter (StrategyRow.isOf id) = rows.filter (StrategyRow.isOf id)) :
    BestIs rows' id vid := by
  have hmem (v : StrategyRow) (hid : v.strategyId = id) : v ∈ rows' ↔ v ∈ rows := by
    have hiff : v ∈ rows'.filter (StrategyRow.isOf id) ↔ v ∈ rows.filter (StrategyRow.isOf id) := by
      rw [hrows]
    simpa [List.mem_filter, StrategyRow.isOf, hid] using hiff
  obtain ⟨v, hv, hvid⟩ := h.exists_row
  refine ⟨⟨v, (hmem v (isVersion_iff.mp hvid).1).mpr hv, hvid⟩, fun v hv hid => ?_⟩
  exact h.flagged v ((hmem v hid).mp hv) hid

/-- A change that leaves the keys and the flags alone leaves the best alone. -/
theorem BestIs.map {g : StrategyRow → StrategyRow} (h : BestIs rows id vid)
    (hid : ∀ v, (g v).strategyId = v.strategyId) (hvid : ∀ v, (g v).strategyVid = v.strategyVid)
    (hflag : ∀ v, (g v).isBestInd = v.isBestInd) : BestIs (rows.map g) id vid := by
  obtain ⟨v, hv, hversion⟩ := h.exists_row
  refine ⟨⟨g v, List.mem_map_of_mem hv, ?_⟩, fun w hw hwid => ?_⟩
  · rw [isVersion_iff, hid, hvid]
    exact isVersion_iff.mp hversion
  · obtain ⟨v, hv, rfl⟩ := List.mem_map.mp hw
    rw [hflag, hvid]
    exact h.flagged v hv (hid v ▸ hwid)

/-- A row that is not flagged leaves the best alone. -/
theorem BestIs.cons {r : StrategyRow} (h : BestIs rows id vid)
    (hr : r.strategyId = id → r.isBestInd ≠ 'Y' ∧ (r.strategyVid : ℤ) ≠ vid) :
    BestIs (r :: rows) id vid := by
  obtain ⟨v, hv, hversion⟩ := h.exists_row
  refine ⟨⟨v, List.mem_cons_of_mem r hv, hversion⟩, fun w hw hid => ?_⟩
  obtain rfl | hw := List.mem_cons.mp hw
  · exact iff_of_false (hr hid).1 (hr hid).2
  · exact h.flagged w hw hid

/-- The first row of a strategy is its best when it is flagged. -/
theorem BestIs.first {r : StrategyRow} (hno : ∀ v ∈ rows, v.strategyId ≠ r.strategyId)
    (hflag : r.isBestInd = 'Y') : BestIs (r :: rows) r.strategyId r.strategyVid := by
  refine ⟨⟨r, List.mem_cons_self, isVersion_iff.mpr ⟨rfl, rfl⟩⟩, fun v hv hid => ?_⟩
  obtain rfl | hv := List.mem_cons.mp hv
  · exact iff_of_true hflag rfl
  · exact absurd hid (hno v hv)

/-- Nothing is flagged after a demotion. -/
theorem isBestInd_demoteBest {v : StrategyRow} (hv : v ∈ (demoteBest id).run rows)
    (hid : v.strategyId = id) : v.isBestInd ≠ 'Y' := by
  rw [Update.run_eq_map fun _ _ => rfl] at hv
  obtain ⟨w, hw, rfl⟩ := List.mem_map.mp hv
  by_cases hbest : (demoteBest id).selects w = true
  · rw [if_pos hbest]
    show ('N' : Char) ≠ 'Y'
    decide
  · rw [if_neg hbest] at hid ⊢
    exact fun hflag => hbest (isBest_iff.mpr ⟨hid, hflag⟩)

/-- A demotion leaves the versions there. -/
theorem exists_demoteBest (h : ∃ v ∈ rows, v.isVersion id vid = true) :
    ∃ v ∈ (demoteBest id).run rows, v.isVersion id vid = true := by
  obtain ⟨v, hv, hvid⟩ := h
  rw [Update.run_eq_map fun _ _ => rfl]
  refine ⟨_, List.mem_map_of_mem hv, ?_⟩
  split
  · exact hvid
  · exact hvid

/-- Where nothing is flagged, the version that is flagged is the best. -/
theorem BestIs.of_flag {u : Update StrategyRow} (hselects : u.selects = StrategyRow.isVersion id vid)
    (hset : ∀ v, u.set v = { v with isBestInd := 'Y' })
    (hunless : ∀ v ∈ rows, u.unlessExists v = false)
    (hnone : ∀ v ∈ rows, v.strategyId = id → v.isBestInd ≠ 'Y')
    (hrow : ∃ v ∈ rows, v.isVersion id vid = true) : BestIs (u.run rows) id vid := by
  rw [Update.run_eq_map hunless]
  constructor
  · obtain ⟨v, hv, hvid⟩ := hrow
    refine ⟨_, List.mem_map_of_mem hv, ?_⟩
    rw [hselects, if_pos hvid, hset]
    exact hvid
  · intro w hw hid
    obtain ⟨v, hv, rfl⟩ := List.mem_map.mp hw
    rw [hselects] at hid ⊢
    by_cases hvid : v.isVersion id vid = true
    · rw [if_pos hvid, hset]
      exact iff_of_true rfl (isVersion_iff.mp hvid).2
    · rw [if_neg hvid] at hid ⊢
      exact iff_of_false (hnone v hv hid) fun h => hvid (isVersion_iff.mpr ⟨hid, h⟩)

/-- **A promotion** of a version that is there makes it the best. The first update takes the flag
from the version that has it, the second one sets it on the target, so that one is left with it.
-/
theorem bestIs_moveBest (hrow : ∃ v ∈ rows, v.isVersion id vid = true) :
    BestIs ((moveBest id vid).exec rows).2 id vid :=
  .of_flag rfl (fun _ => rfl) (fun _ _ => rfl) (fun _ => isBestInd_demoteBest)
    (exists_demoteBest hrow)

/-- **A demotion** makes the first version the best, where there is one. The first update leaves
no version with the flag, so that the second one, which waits for that, goes through. -/
theorem bestIs_demoteOnly (hrow : ∃ v ∈ rows, v.isVersion id 1 = true) :
    BestIs ((demoteOnly id).exec rows).2 id 1 := by
  refine .of_flag rfl (fun _ => rfl) (fun v hv => ?_) (fun _ => isBestInd_demoteBest)
    (exists_demoteBest hrow)
  refine Bool.eq_false_iff.mpr fun hbest => ?_
  obtain ⟨hid, hflag⟩ := isBest_iff.mp hbest
  exact isBestInd_demoteBest hv hid hflag

/-! ## What the procedures leave alone -/

/-- The keys of a strategy. -/
def ofStrategy (strategyId : ℕ) (k : ℕ × ℕ) : Bool := k.1 = strategyId

/-- A promotion reads and writes rows of its strategy alone. -/
theorem local_promote (target : Option ℤ) :
    (promote id target).Local StrategyRow.pk (ofStrategy id) := by
  have hversion {vid : ℤ} {v : StrategyRow} (h : v.isVersion id vid = true) :
      ofStrategy id v.pk = true := decide_eq_true (isVersion_iff.mp h).1
  have hbest {v : StrategyRow} (h : v.isBest id = true) : ofStrategy id v.pk = true :=
    decide_eq_true (isBest_iff.mp h).1
  have hdemote : (demoteBest id).Local StrategyRow.pk (ofStrategy id) :=
    ⟨fun _ => hbest, nofun, fun _ => rfl⟩
  cases target with
  | none => exact ⟨hdemote, ⟨fun _ => hversion, fun _ => hbest, fun _ => rfl⟩, trivial⟩
  | some vid =>
    refine ⟨fun _ => hversion, ⟨fun v hv => ?_, trivial, hdemote, ⟨fun _ => hversion, nofun,
      fun _ => rfl⟩, trivial⟩, trivial⟩
    exact hversion ((Bool.and_eq_true _ _).mp hv).1

/-- A flip leaves the rows of the other strategies alone. -/
theorem promote_filter_other (target : Option ℤ) (hne : id' ≠ id) (rows : List StrategyRow) :
    ((promote id target).exec rows).2.filter (StrategyRow.isOf id') =
      rows.filter (StrategyRow.isOf id') := by
  refine (local_promote target).exec_filter_other (q := ofStrategy id') (fun k hk => ?_) rows
  exact decide_eq_false fun hk' => hne (hk'.symm.trans (of_decide_eq_true hk))

/-! ## One call after another -/

/-- What holds after any calls: the versions of a strategy are numbered from one, the one
that was promoted last is the best, or else the first one, and none is promoted of a
strategy that has no row. -/
structure BestKept (s : Strategies) : Prop where
  /-- The versions of each strategy are a history without gaps. -/
  histories : StrategyRow.table.Histories s.rows
  /-- The one that was promoted last is the best, or else version 1. -/
  best : ∀ id, (∃ v ∈ s.rows, v.strategyId = id) → BestIs s.rows id ((s.promoted id).getD 1)
  /-- Of a strategy without a row none was promoted. -/
  unpromoted : ∀ id, (∀ v ∈ s.rows, v.strategyId ≠ id) → s.promoted id = none

/-- Flips and logical deletes leave every history alone. -/
theorem histories_run {u : Update StrategyRow} (hid : ∀ v, (u.set v).strategyId = v.strategyId)
    (hvid : ∀ v, (u.set v).strategyVid = v.strategyVid)
    (hfrom : ∀ v, (u.set v).transactFromTs = v.transactFromTs)
    (hto : ∀ v, (u.set v).transactToTs = v.transactToTs)
    (h : StrategyRow.table.Histories rows) : StrategyRow.table.Histories (u.run rows) := by
  unfold Update.run
  split
  · exact h
  · refine h.map (fun v => ?_) (fun v => ?_) (fun v => ?_) (fun v => ?_)
    · split
      · exact hid v
      · rfl
    · split
      · exact hvid v
      · rfl
    · split
      · exact hfrom v
      · rfl
    · split
      · exact hto v
      · rfl

/-- The updates of a flip change nothing but the flag. -/
theorem each_promote {P : Update StrategyRow → Prop} (target : Option ℤ)
    (h : ∀ u : Update StrategyRow, (∃ ind, ∀ v, u.set v = { v with isBestInd := ind }) → P u) :
    (promote id target).Each P := by
  have hdemote : P (demoteBest id) := h _ ⟨'N', fun _ => rfl⟩
  cases target with
  | none => exact ⟨hdemote, h _ ⟨'Y', fun _ => rfl⟩, trivial⟩
  | some vid => exact ⟨⟨trivial, hdemote, h _ ⟨'Y', fun _ => rfl⟩, trivial⟩, trivial⟩

/-- Moving the flag leaves the histories, as it changes no number and no window. -/
theorem histories_promote (target : Option ℤ) (h : StrategyRow.table.Histories rows) :
    StrategyRow.table.Histories ((promote id target).exec rows).2 := by
  refine Proc.Each.exec (each_promote target fun u hu rows hrows => ?_) h
  obtain ⟨ind, hset⟩ := hu
  refine histories_run (fun v => ?_) (fun v => ?_) (fun v => ?_) (fun v => ?_) hrows
  · rw [hset]
  · rw [hset]
  · rw [hset]
  · rw [hset]

/-- A flip leaves the keys alone. -/
theorem map_pk_promote (target : Option ℤ) (rows : List StrategyRow) :
    ((promote id target).exec rows).2.map StrategyRow.pk = rows.map StrategyRow.pk := by
  refine Proc.Each.exec (I := fun r => r.map StrategyRow.pk = rows.map StrategyRow.pk)
    (each_promote target fun u hu r hr => ?_) rfl
  obtain ⟨ind, hset⟩ := hu
  refine Eq.trans ?_ hr
  unfold Update.run
  split
  · rfl
  · rw [List.map_map]
    refine List.map_congr_left fun v _ => ?_
    rw [Function.comp_apply]
    split
    · rw [hset]
      rfl
    · rfl

/-- A strategy has a row when its id is in a key. -/
theorem exists_row_iff :
    (∃ v ∈ rows, v.strategyId = id) ↔ ∃ k ∈ rows.map StrategyRow.pk, k.1 = id := by
  constructor
  · rintro ⟨v, hv, hid⟩
    exact ⟨v.pk, List.mem_map_of_mem hv, hid⟩
  · rintro ⟨k, hk, hid⟩
    obtain ⟨v, hv, rfl⟩ := List.mem_map.mp hk
    exact ⟨v, hv, hid⟩

/-- **A flip that reports success** makes the version that it names the best, or the
first one when it names none. -/
theorem bestIs_promote {target : Option ℤ} (hfirst : ∃ v ∈ rows, v.isVersion id 1 = true)
    (hbest : BestIs rows id b) (hok : ((promote id target).exec rows).1.sqlstate = "00000") :
    BestIs ((promote id target).exec rows).2 id (target.getD 1) := by
  cases target with
  | none => exact bestIs_demoteOnly hfirst
  | some vid =>
    rw [promote, Proc.exec] at hok ⊢
    split
    · next hexists =>
      obtain ⟨v, hv, hvid⟩ := List.any_eq_true.mp hexists
      rw [moveUnlessBest, Proc.exec]
      split
      · next halready =>
        -- the version that is flagged is the best
        obtain ⟨w, hw, hwbest⟩ := List.any_eq_true.mp halready
        obtain ⟨hwvid, hflag⟩ := (Bool.and_eq_true _ _).mp hwbest
        obtain ⟨hid, hwvid⟩ := isVersion_iff.mp hwvid
        have hb := (hbest.flagged w hw hid).mp (of_decide_eq_true hflag)
        exact (hwvid.symm.trans hb) ▸ hbest
      · exact bestIs_moveBest ⟨v, hv, hvid⟩
    · next hmissing =>
      rw [if_neg hmissing] at hok
      have hok : "02000" = "00000" := hok
      exact absurd hok (by decide)

/-- A flip to a version that is not there fails. -/
theorem promote_missing (hno : ∀ v ∈ rows, v.strategyId ≠ id) :
    ((promote id (some vid)).exec rows).1.sqlstate = "02000" := by
  have hmissing : ¬ rows.any (StrategyRow.isVersion id vid) = true := fun hany => by
    obtain ⟨v, hv, hvid⟩ := List.any_eq_true.mp hany
    exact hno v hv (isVersion_iff.mp hvid).1
  rw [promote, Proc.exec, if_neg hmissing]
  rfl

/-- What `SP_UPD_PROMOTE_STRATEGY` leaves when it reports success. -/
theorem spUpdPromoteStrategy_success {refused : ℕ → Option SqlError} {a : PromoteArgs}
    {row : OutRow Unit} (h : spUpdPromoteStrategy refused a rows = .ok (row, rows'))
    (hok : row.sqlstate = "00000") :
    ∃ id, a.strategyId = some id ∧ (row, rows') = (promote id a.strategyVid).exec rows := by
  obtain h | ⟨e, -, -, h⟩ := Sql.block_eq_ok.mp h
  · cases hid : a.strategyId with
    | none =>
      rw [hid] at h
      cases Sql.pure_eq_ok.mp h
      exact absurd hok (by decide)
    | some id =>
      rw [hid] at h
      exact ⟨id, rfl, Proc.sql_eq_ok h⟩
  · cases h
    exact absurd hok e.failed

/-- **A flip that reports success** keeps what holds of the strategies. The target becomes the
version promoted last, and the flag is on it, or on version 1 after a demotion. -/
theorem BestKept.flip {s : Strategies} (h : BestKept s) {target : Option ℤ}
    (hok : ((Database.promote id target).exec s.rows).1.sqlstate = "00000") :
    BestKept ⟨((Database.promote id target).exec s.rows).2,
      Function.update s.promoted id target⟩ := by
  have hexists (id' : ℕ) : (∃ v ∈ ((Database.promote id target).exec s.rows).2,
      v.strategyId = id') ↔ ∃ v ∈ s.rows, v.strategyId = id' := by
    rw [exists_row_iff, map_pk_promote, ← exists_row_iff]
  refine ⟨histories_promote target h.histories, fun id' hid => ?_, fun id' hno => ?_⟩
  · have hbest := h.best id' ((hexists id').mp hid)
    by_cases hid' : id' = id
    · subst hid'
      obtain ⟨v, hv, hkey, hvid⟩ := h.histories.exists_first ((hexists id').mp hid)
      have hfirst : v.isVersion id' 1 = true := isVersion_iff.mpr ⟨hkey, congrArg Nat.cast hvid⟩
      dsimp only
      rw [Function.update_self]
      exact bestIs_promote ⟨v, hv, hfirst⟩ hbest hok
    · dsimp only
      rw [Function.update_of_ne hid']
      exact hbest.congr (promote_filter_other target hid' s.rows)
  · have hno' (v : StrategyRow) (hv : v ∈ s.rows) : v.strategyId ≠ id' := fun hv' => by
      obtain ⟨w, hw, hwid⟩ := (hexists id').mpr ⟨v, hv, hv'⟩
      exact hno w hw hwid
    dsimp only
    by_cases hid' : id' = id
    · subst hid'
      rw [Function.update_self]
      cases target with
      | none => rfl
      | some vid =>
        rw [promote_missing hno'] at hok
        exact absurd hok (by decide)
    · rw [Function.update_of_ne hid']
      exact h.unpromoted id' hno'

/-- **A promotion keeps it**, refused or not: a call that fails undoes its updates. -/
theorem BestKept.promote {s : Strategies} (h : BestKept s) {a : PromoteArgs} {f : Faults}
    {refused : ℕ → Option SqlError} :
    BestKept ((StrategyCall.spUpdPromoteStrategy refused a).write f s) := by
  cases hres : (callWrite f (spUpdPromoteStrategy refused a) s.rows).1 with
  | error e =>
    have hrows := callWrite_error hres
    have hsame : (StrategyCall.spUpdPromoteStrategy refused a).write f s = s := by
      unfold StrategyCall.write
      dsimp only
      rw [hrows, hres]
    rw [hsame]
    exact h
  | ok u =>
    obtain ⟨-, -, row, hcall, hok, -⟩ := callWrite_eq_ok.mp (Prod.ext hres rfl)
    obtain ⟨id, hid, hexec⟩ := spUpdPromoteStrategy_success hcall hok
    have hrow : row = ((Database.promote id a.strategyVid).exec s.rows).1 := congrArg Prod.fst hexec
    have hrows : (callWrite f (spUpdPromoteStrategy refused a) s.rows).2 =
        ((Database.promote id a.strategyVid).exec s.rows).2 := congrArg Prod.snd hexec
    have hwrite : (StrategyCall.spUpdPromoteStrategy refused a).write f s =
        ⟨((Database.promote id a.strategyVid).exec s.rows).2,
          Function.update s.promoted id a.strategyVid⟩ := by
      unfold StrategyCall.write
      dsimp only
      rw [hrows, hres, hid]
    rw [hwrite]
    exact h.flip (hrow ▸ hok)

/-- A change that leaves the keys, the windows and the flags alone keeps what holds. -/
theorem BestKept.map {s : Strategies} {g : StrategyRow → StrategyRow} (h : BestKept s)
    (hid : ∀ v, (g v).strategyId = v.strategyId) (hvid : ∀ v, (g v).strategyVid = v.strategyVid)
    (hfrom : ∀ v, (g v).transactFromTs = v.transactFromTs)
    (hto : ∀ v, (g v).transactToTs = v.transactToTs)
    (hflag : ∀ v, (g v).isBestInd = v.isBestInd) : BestKept { s with rows := s.rows.map g } := by
  refine ⟨h.histories.map hid hvid hfrom hto, fun id' hrow => ?_, fun id' hno => ?_⟩
  · obtain ⟨w, hw, hwid⟩ := hrow
    obtain ⟨v, hv, rfl⟩ := List.mem_map.mp hw
    exact (h.best id' ⟨v, hv, (hid v).symm.trans hwid⟩).map hid hvid hflag
  · exact h.unpromoted id' fun v hv hv' => hno _ (List.mem_map_of_mem hv) ((hid v).trans hv')

/-- The update of a logical delete keeps what holds. -/
theorem BestKept.setDeleted {s : Strategies} (h : BestKept s) (selects : StrategyRow → Bool)
    (ind : Char) : BestKept { s with rows := (setDeleted selects ind).run s.rows } := by
  rw [Update.run_eq_map fun _ _ => rfl]
  refine h.map (fun v => ?_) (fun v => ?_) (fun v => ?_) (fun v => ?_) (fun v => ?_)
  all_goals
    split
    · rfl
    · rfl

/-- A logical delete keeps it, since it does not touch the flag. -/
theorem BestKept.logicalDelete {s : Strategies} (h : BestKept s) {f : Faults}
    {refused : ℕ → Option SqlError} {a : LogicalDeleteArgs} :
    BestKept ((StrategyCall.spUpdStrategyLogicalDelete refused a).write f s) := by
  have hexec (id : ℕ) (ind : Char) (target : Option ℤ) :
      BestKept { s with rows := ((Database.logicalDelete id ind target).exec s.rows).2 } := by
    refine Proc.Each.exec (I := fun rows => BestKept { s with rows := rows }) ?_ h
    have hset (selects : StrategyRow → Bool) (rows : List StrategyRow)
        (hrows : BestKept { s with rows := rows }) :
        BestKept { s with rows := (Database.setDeleted selects ind).run rows } :=
      hrows.setDeleted selects ind
    cases target with
    | none => exact ⟨⟨hset _, trivial⟩, trivial⟩
    | some vid => exact ⟨⟨hset _, trivial⟩, trivial⟩
  refine callWrite_keeps (P := fun rows => BestKept { s with rows := rows }) h ?_
  intro row rows' hcall
  obtain hcall | ⟨e, -, -, hcall⟩ := Sql.block_eq_ok.mp hcall
  · obtain ⟨id, target, ind⟩ := a
    match id, ind with
    | none, _ =>
      cases Sql.pure_eq_ok.mp hcall
      exact h
    | some id, none =>
      cases Sql.pure_eq_ok.mp hcall
      exact h
    | some id, some ind =>
      have hrows : rows' = ((Database.logicalDelete id ind target).exec s.rows).2 :=
        congrArg Prod.snd (Proc.sql_eq_ok hcall)
      rw [hrows]
      exact hexec id ind target
  · cases hcall
    exact h

/-- Closing what is open leaves the keys alone. -/
theorem map_pk_closeOpen (now : ℤ) (name : Option ℕ) (rows : List StrategyRow) :
    (StrategyRow.table.closeOpen now name rows).map StrategyRow.pk = rows.map StrategyRow.pk := by
  unfold SoftTable.closeOpen
  rw [List.map_map]
  refine List.map_congr_left fun v _ => ?_
  rw [Function.comp_apply]
  split
  · rfl
  · rfl

/-- Closing open rows leaves the best. -/
theorem BestIs.closeOpen (h : BestIs rows id vid) (now : ℤ) (name : Option ℕ) :
    BestIs (StrategyRow.table.closeOpen now name rows) id vid := by
  refine h.map (fun v => ?_) (fun v => ?_) (fun v => ?_)
  all_goals
    split
    · rfl
    · rfl

/-- **An insert keeps what holds of the strategies**: the first version of one is its best. The
procedure sets the flag on version 1 only, so that a later version leaves the best one alone. -/
theorem BestKept.insert {s : Strategies} (h : BestKept s) {f : Faults} {now : ℤ} {generated : ℕ}
    {a : StrategyArgs} : BestKept ((StrategyCall.spInsStrategy now generated a).write f s) := by
  refine callWrite_keeps (P := fun rows => BestKept { s with rows := rows }) h ?_
  intro row rows' hcall
  obtain rfl | ⟨r, hvid, hfrom, hto, hflag, rfl⟩ := spInsStrategy_eq_ok hcall
  · exact h
  have hexists (id : ℕ) : (∃ v ∈ StrategyRow.table.closeOpen now (some r.strategyId) s.rows,
      v.strategyId = id) ↔ ∃ v ∈ s.rows, v.strategyId = id := by
    rw [exists_row_iff, map_pk_closeOpen, ← exists_row_iff]
  refine ⟨h.histories.append hvid hfrom hto, fun id' hrow => ?_, fun id' hno => ?_⟩
  · by_cases hold : ∃ v ∈ s.rows, v.strategyId = id'
    · -- the new number is above that of the best version, and of the first one
      have hbest := h.best id' hold
      refine (hbest.closeOpen now _).cons fun hid => ?_
      obtain ⟨v, hv, hversion⟩ := hbest.exists_row
      obtain ⟨hvkey, hvbest⟩ := isVersion_iff.mp hversion
      obtain ⟨w, hw, hwkey, hwvid⟩ := h.histories.exists_first hold
      have hvlt : v.strategyVid < StrategyRow.table.nextVid s.rows (some r.strategyId) :=
        Versioned.lt_nextVid hv (congrArg some (hvkey.trans hid.symm))
      have hwlt : StrategyRow.table.vid w < StrategyRow.table.nextVid s.rows (some r.strategyId) :=
        Versioned.lt_nextVid hw (congrArg some (hwkey.trans hid.symm))
      rw [hflag, if_neg (by omega)]
      exact ⟨by decide, by omega⟩
    · have hno : ∀ v ∈ s.rows, v.strategyId ≠ id' := fun v hv hv' => hold ⟨v, hv, hv'⟩
      obtain ⟨v, hv, hvkey⟩ := hrow
      obtain rfl | hv := List.mem_cons.mp hv
      · subst hvkey
        have hone : v.strategyVid = 1 := by
          rw [hvid, h.histories.nextVid]
          have hnil : StrategyRow.table.versions s.rows v.strategyId = [] :=
            List.filter_eq_nil_iff.mpr fun w hw hwkey => hno w hw (of_decide_eq_true hwkey)
          rw [hnil]
          rfl
        rw [if_pos hone] at hflag
        have hfirst : BestIs (v :: StrategyRow.table.closeOpen now (some v.strategyId) s.rows)
            v.strategyId v.strategyVid := by
          refine .first (fun w hw hwkey => hold ?_) hflag
          exact (hexists v.strategyId).mp ⟨w, hw, hwkey⟩
        dsimp only
        rw [h.unpromoted v.strategyId hno]
        rw [hone] at hfirst
        exact hfirst
      · exact absurd ((hexists id').mp ⟨v, hv, hvkey⟩) hold
  · refine h.unpromoted id' fun v hv hvkey => ?_
    obtain ⟨w, hw, hwkey⟩ := (hexists id').mpr ⟨v, hv, hvkey⟩
    exact hno w (List.mem_cons_of_mem r hw) hwkey

/-- **After any calls** what holds of the strategies does. The calls may be refused, fail at any
statement and come in any order, one after the other. -/
theorem bestKept_of_reach {s : Strategies} {G : Strategies → Faults × StrategyCall → Prop}
    (hs : strategyCalls.Reach G s) : BestKept s := by
  refine hs.invariant (fun s h => ?_) (fun s l s' h _ hstep => ?_)
  · obtain ⟨hrows, hpromoted⟩ := h
    refine ⟨hrows ▸ .nil, fun id hrow => ?_, fun id _ => congrFun hpromoted id⟩
    rw [hrows] at hrow
    obtain ⟨v, hv, -⟩ := hrow
    cases hv
  · obtain ⟨f, call⟩ := l
    cases hstep
    cases call with
    | spInsStrategy now generated a => exact h.insert
    | spUpdPromoteStrategy refused a => exact h.promote
    | spUpdStrategyLogicalDelete refused a => exact h.logicalDelete

/-- No two rows have the same key. -/
theorem BestKept.nodup {s : Strategies} (h : BestKept s) :
    (s.rows.map StrategyRow.pk).Nodup := h.histories.nodup

/-- **After any calls** a strategy has exactly one best version: the one that was
promoted last, or else the first one. -/
theorem BestKept.oneBest {s : Strategies} (h : BestKept s) (hrow : ∃ v ∈ s.rows, v.strategyId = id) :
    OneBest s.rows id ((s.promoted id).getD 1) := (h.best id hrow).oneBest h.nodup

end Database
