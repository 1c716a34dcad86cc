import Mathlib.Order.WithBot
import QuantStrategies.Lib.Versioned

/-!
# Soft-versioned tables

A soft-versioned table keeps every version of an entity. A version carries its
number and the window in which it was the current one; the current version is
open, its window ending in a far future that no clock shows (`⊤`). A write closes
the open version of its entity at the present time and inserts the next one, open
from that time on.

What such writes keep is a *history*: from the newest version down, each window
ends where the next one's begins, and the numbers count down to one
(`History`). It says all there is to say about one entity: which version is
open, how the versions are numbered, and that nothing lies between two windows.

The clock plays no part in it: a history is a matter of which ends meet. Two versions that
are written at one instant, or under a clock that has gone back, meet all the same, though
the window of the first is then empty.
-/

/-- A soft-versioned table: where a row keeps its entity, its number and its
window, and how a window is closed. -/
structure SoftTable (V K : Type) where
  /-- The entity that a row is a version of. -/
  key : V → K
  /-- The number of the version. -/
  vid : V → ℕ
  /-- From when on it was the current one. -/
  fromTs : V → ℤ
  /-- Until when, or the far future where it still is. -/
  toTs : V → WithTop ℤ
  /-- The row with its window ended. -/
  closeAt : ℤ → V → V
  /-- Ending the window does not move the row to another entity. -/
  key_closeAt : ∀ t v, key (closeAt t v) = key v
  /-- Nor does it change its number. -/
  vid_closeAt : ∀ t v, vid (closeAt t v) = vid v
  /-- Nor when it began. -/
  fromTs_closeAt : ∀ t v, fromTs (closeAt t v) = fromTs v
  /-- The window ends when it is closed. -/
  toTs_closeAt : ∀ t v, toTs (closeAt t v) = t

namespace SoftTable

variable {V K : Type} [DecidableEq K] (T : SoftTable V K)

/-- The versions of an entity. -/
def versions (log : List V) (k : K) : List V := log.filter (fun v => T.key v = k)

/-- `COALESCE(MAX(vid), 0) + 1`, of the entity named. A null names none. -/
def nextVid (log : List V) (k : Option K) : ℕ :=
  Versioned.nextVid (fun v => some (T.key v)) T.vid log k

/-- Close the open version of the entity named. -/
def closeOpen (now : ℤ) (k : Option K) (log : List V) : List V :=
  log.map fun v => if some (T.key v) = k ∧ T.toTs v = ⊤ then T.closeAt now v else v

/-- Versions from the newest down, the newest one's window ending at `stop`. -/
def History (stop : WithTop ℤ) : List V → Prop
  | [] => True
  | v :: older => T.toTs v = stop ∧ T.vid v = older.length + 1 ∧ History (T.fromTs v) older

/-- Every entity has a history that is still open. -/
def Histories (log : List V) : Prop := ∀ k, T.History ⊤ (T.versions log k)

/-- What a soft-versioned table promises of an entity that has a row: one open
row, which has the highest number; the numbers 1 to n; and windows without a
gap. -/
structure SoftVersioned (log : List V) (k : K) : Prop where
  /-- One row is current, and it is the newest. -/
  oneOpen : ∃ v, (T.versions log k).filter (fun v => T.toTs v = ⊤) = [v] ∧
    ∀ w ∈ T.versions log k, T.vid w ≤ T.vid v
  /-- The numbers count up to how many there are, and none is missing. -/
  numbered : ((T.versions log k).map T.vid).Perm
    (List.range' 1 (T.versions log k).length)
  /-- Between two versions that follow each other no instant belongs to neither. -/
  gapFree : ∀ v ∈ T.versions log k, ∀ w ∈ T.versions log k, T.vid w = T.vid v + 1 →
    T.toTs v = T.fromTs w

variable {T} {log rows older : List V} {k : K} {v w : V} {stop : WithTop ℤ} {now : ℤ}

omit [DecidableEq K] in
/-- The numbers of a history count down to one. -/
theorem History.map_vid (h : T.History stop rows) :
    rows.map T.vid = (List.range' 1 rows.length).reverse := by
  induction rows generalizing stop with
  | nil => rfl
  | cons v older ih =>
    obtain ⟨-, hvid, holder⟩ := h
    rw [List.map_cons, ih holder, hvid, List.length_cons, List.range'_concat,
      List.reverse_append, List.reverse_singleton, List.singleton_append, Nat.one_mul,
      Nat.add_comm]

omit [DecidableEq K] in
/-- No number of a history is above its length. -/
theorem History.vid_le (h : T.History stop rows) (hv : v ∈ rows) : T.vid v ≤ rows.length := by
  have hmem : T.vid v ∈ (List.range' 1 rows.length).reverse :=
    h.map_vid ▸ List.mem_map_of_mem hv
  rw [List.mem_reverse, List.mem_range'_1] at hmem
  exact Nat.le_of_lt_succ (hmem.2.trans_eq (Nat.add_comm 1 _))

omit [DecidableEq K] in
/-- The highest number of a history is its length. -/
theorem History.foldr_max (h : T.History stop rows) :
    (rows.map T.vid).foldr max 0 = rows.length := by
  induction rows generalizing stop with
  | nil => rfl
  | cons v older ih =>
    obtain ⟨-, hvid, holder⟩ := h
    have hle : (older.map T.vid).foldr max 0 ≤ T.vid v := by
      rw [ih holder, hvid]
      exact Nat.le_succ _
    rw [List.map_cons, List.foldr_cons, max_eq_left hle, hvid, List.length_cons]

omit [DecidableEq K] in
/-- No version of a history that ended is open. -/
theorem History.closed (h : T.History (now : WithTop ℤ) rows) (hv : v ∈ rows) :
    T.toTs v ≠ ⊤ := by
  induction rows generalizing now with
  | nil => cases hv
  | cons w older ih =>
    obtain ⟨hto, -, holder⟩ := h
    cases hv with
    | head => exact hto ▸ WithTop.coe_ne_top
    | tail _ hv => exact ih holder hv

omit [DecidableEq K] in
/-- In a history each window ends where the next one begins. -/
theorem History.gapFree (h : T.History stop rows) (hv : v ∈ rows) (hw : w ∈ rows)
    (hvid : T.vid w = T.vid v + 1) : T.toTs v = T.fromTs w := by
  induction rows generalizing stop with
  | nil => cases hv
  | cons x older ih =>
    obtain ⟨-, hx, holder⟩ := h
    cases hw with
    | head =>
      cases hv with
      | head => exact absurd hvid (Nat.succ_ne_self _).symm
      | tail _ hv =>
        -- the version below the newest heads what is older
        cases older with
        | nil => cases hv
        | cons y rest =>
          obtain ⟨hto, hy, hrest⟩ := holder
          cases hv with
          | head => exact hto
          | tail _ hv =>
            have hle := hrest.vid_le hv
            rw [hx, List.length_cons] at hvid
            exact absurd hvid (ne_of_gt (Nat.succ_lt_succ (Nat.lt_succ_of_le hle)))
    | tail _ hw =>
      cases hv with
      | head =>
        have hle := holder.vid_le hw
        rw [hvid, hx] at hle
        exact absurd hle (Nat.not_le.mpr (Nat.lt_succ_of_lt (Nat.lt_succ_self _)))
      | tail _ hv => exact ih holder hv hw

omit [DecidableEq K] in
/-- Closing what is open ends an open history. -/
theorem History.close (h : T.History ⊤ rows) :
    T.History now (rows.map fun v => if T.toTs v = ⊤ then T.closeAt now v else v) := by
  cases rows with
  | nil => trivial
  | cons v older =>
    obtain ⟨hto, hvid, holder⟩ := h
    have hrest : (older.map fun v => if T.toTs v = ⊤ then T.closeAt now v else v) = older := by
      refine (List.map_congr_left fun w hw => ?_).trans (List.map_id older)
      exact if_neg (holder.closed hw)
    rw [List.map_cons, hrest, if_pos hto]
    refine ⟨T.toTs_closeAt now v, (T.vid_closeAt now v).trans hvid, ?_⟩
    rw [T.fromTs_closeAt]
    exact holder

/-- What an entity's versions are after a close. -/
theorem versions_closeOpen (now : ℤ) (name : Option K) (log : List V) (k : K) :
    T.versions (T.closeOpen now name log) k =
      (T.versions log k).map fun v =>
        if some k = name ∧ T.toTs v = ⊤ then T.closeAt now v else v := by
  induction log with
  | nil => rfl
  | cons v log ih =>
    have hkey : T.key (if some (T.key v) = name ∧ T.toTs v = ⊤ then T.closeAt now v else v) =
        T.key v := by
      split
      · exact T.key_closeAt now v
      · rfl
    show ((if _ then _ else _) :: T.closeOpen now name log).filter _ = _
    rw [List.filter_cons, hkey]
    unfold versions at ih ⊢
    rw [List.filter_cons, ih]
    split
    · next hk =>
      rw [List.map_cons, of_decide_eq_true hk]
    · rfl

/-- The next number is above those of the versions there are. -/
theorem lt_nextVid_of_mem_closeOpen {name : Option K} (hv : v ∈ T.closeOpen now name log)
    (hk : some (T.key v) = name) : T.vid v < T.nextVid log name := by
  obtain ⟨w, hw, rfl⟩ := List.mem_map.mp hv
  have hkey : T.key (if some (T.key w) = name ∧ T.toTs w = ⊤ then T.closeAt now w else w) =
      T.key w := by
    split
    · exact T.key_closeAt now w
    · rfl
  have hvid : T.vid (if some (T.key w) = name ∧ T.toTs w = ⊤ then T.closeAt now w else w) =
      T.vid w := by
    split
    · exact T.vid_closeAt now w
    · rfl
  rw [hkey] at hk
  rw [hvid]
  exact Versioned.lt_nextVid hw hk

/-- The number of the next version is one above how many there are. -/
theorem Histories.nextVid (h : T.Histories log) (k : K) :
    T.nextVid log (some k) = (T.versions log k).length + 1 := by
  have hfilter : log.filter (fun v => some (T.key v) = some k) = T.versions log k := by
    exact List.filter_congr fun v _ => decide_eq_decide.mpr Option.some_inj
  unfold SoftTable.nextVid Versioned.nextVid
  rw [hfilter, (h k).foldr_max]

/-- **A write of the next version keeps every history.** The open version is closed at the time
from which the new one holds, so that neither a gap nor an overlap arises, and other keys are not
touched. -/
theorem Histories.append (h : T.Histories log) {r : V} {now : ℤ}
    (hvid : T.vid r = T.nextVid log (some (T.key r))) (hfrom : T.fromTs r = now)
    (hto : T.toTs r = ⊤) : T.Histories (r :: T.closeOpen now (some (T.key r)) log) := by
  intro k
  unfold versions
  rw [List.filter_cons]
  split
  · next hk =>
    have hk : T.key r = k := of_decide_eq_true hk
    have hclosed : T.versions (T.closeOpen now (some (T.key r)) log) k =
        (T.versions log k).map fun v => if T.toTs v = ⊤ then T.closeAt now v else v := by
      rw [versions_closeOpen]
      exact List.map_congr_left fun v _ => if_congr (and_iff_right (congrArg some hk.symm)) rfl rfl
    refine ⟨hto, ?_, ?_⟩
    · show T.vid r = (T.versions (T.closeOpen now (some (T.key r)) log) k).length + 1
      rw [hvid, hk, h.nextVid, versions_closeOpen, List.length_map]
    · show T.History _ (T.versions (T.closeOpen now (some (T.key r)) log) k)
      rw [hclosed, hfrom]
      exact (h k).close
  · next hk =>
    have hk : T.key r ≠ k := of_decide_eq_false (Bool.eq_false_iff.mpr hk)
    show T.History ⊤ (T.versions (T.closeOpen now (some (T.key r)) log) k)
    rw [versions_closeOpen]
    have hsame : ((T.versions log k).map fun v =>
        if some k = some (T.key r) ∧ T.toTs v = ⊤ then T.closeAt now v else v) =
        T.versions log k := by
      refine (List.map_congr_left fun v _ => ?_).trans (List.map_id _)
      exact if_neg fun hboth => hk (Option.some.inj hboth.1).symm
    rw [hsame]
    exact h k

/-- An empty table has no entity whose history could be broken. -/
theorem Histories.nil : T.Histories ([] : List V) := fun _ => trivial

/-- **Histories keep the promise** of a soft-versioned table. The versions are numbered from 1 on,
each begins where the one before it ends, and the last one alone is open. -/
theorem Histories.softVersioned (h : T.Histories log) (hk : ∃ v ∈ log, T.key v = k) :
    T.SoftVersioned log k := by
  have hhist := h k
  obtain ⟨v, hv, hkey⟩ := hk
  have hmem : v ∈ T.versions log k := List.mem_filter.mpr ⟨hv, decide_eq_true hkey⟩
  refine ⟨?_, ?_, fun v hv w hw => hhist.gapFree hv hw⟩
  · generalize T.versions log k = rows at hhist hmem
    cases rows with
    | nil => cases hmem
    | cons x older =>
      obtain ⟨hto, hvid, holder⟩ := hhist
      refine ⟨x, ?_, fun w hw => ?_⟩
      · rw [List.filter_cons, if_pos (decide_eq_true hto)]
        refine congrArg (x :: ·) (List.filter_eq_nil_iff.mpr fun w hw => ?_)
        rw [decide_eq_true_eq]
        exact holder.closed hw
      · cases hw with
        | head => exact le_rfl
        | tail _ hw => exact hvid ▸ (holder.vid_le hw).trans (Nat.le_succ _)
  · rw [hhist.map_vid]
    exact List.reverse_perm _

/-- Every entity that has a row has a first version. -/
theorem Histories.exists_first (h : T.Histories log) (hk : ∃ v ∈ log, T.key v = k) :
    ∃ v ∈ log, T.key v = k ∧ T.vid v = 1 := by
  obtain ⟨v, hv, hkey⟩ := hk
  have hmem : v ∈ T.versions log k := List.mem_filter.mpr ⟨hv, decide_eq_true hkey⟩
  have hone : 1 ∈ (T.versions log k).map T.vid := by
    rw [(h k).map_vid, List.mem_reverse, List.mem_range'_1]
    have hlen := List.length_pos_of_mem hmem
    omega
  obtain ⟨w, hw, hvid⟩ := List.mem_map.mp hone
  obtain ⟨hw, hkey⟩ := List.mem_filter.mp hw
  exact ⟨w, hw, of_decide_eq_true hkey, hvid⟩

/-- No two rows have the same entity and number. -/
theorem Histories.nodup (h : T.Histories log) : (log.map (fun v => (T.key v, T.vid v))).Nodup := by
  -- what is below a row of a history is one that has ended
  have hended (log : List V) (h : ∀ k, ∃ stop, T.History stop (T.versions log k)) :
      (log.map (fun v => (T.key v, T.vid v))).Nodup := by
    induction log with
    | nil => exact List.nodup_nil
    | cons v log ih =>
      obtain ⟨stop, hstop⟩ := h (T.key v)
      have hself : T.versions (v :: log) (T.key v) = v :: T.versions log (T.key v) :=
        List.filter_cons_of_pos (decide_eq_true rfl)
      rw [hself] at hstop
      obtain ⟨-, hvid, holder⟩ := hstop
      refine List.nodup_cons.mpr ⟨fun hmem => ?_, ih fun k => ?_⟩
      · obtain ⟨w, hw, hkey⟩ := List.mem_map.mp hmem
        obtain ⟨hk, hn⟩ := Prod.mk.inj hkey
        have hle := holder.vid_le (List.mem_filter.mpr ⟨hw, decide_eq_true hk⟩)
        omega
      · by_cases hk : T.key v = k
        · exact hk ▸ ⟨_, holder⟩
        · obtain ⟨stop, hstop⟩ := h k
          have hother : T.versions (v :: log) k = T.versions log k :=
            List.filter_cons_of_neg (fun hk' => hk (of_decide_eq_true hk'))
          exact ⟨stop, hother ▸ hstop⟩
  exact hended log fun k => ⟨⊤, h k⟩

omit [DecidableEq K] in
/-- A change that leaves the numbers and the windows alone keeps a history. -/
theorem History.map {g : V → V} (hvid : ∀ v, T.vid (g v) = T.vid v)
    (hfrom : ∀ v, T.fromTs (g v) = T.fromTs v) (hto : ∀ v, T.toTs (g v) = T.toTs v)
    (h : T.History stop rows) : T.History stop (rows.map g) := by
  induction rows generalizing stop with
  | nil => trivial
  | cons v older ih =>
    obtain ⟨hstop, hnum, holder⟩ := h
    refine ⟨(hto v).trans hstop, ?_, hfrom v ▸ ih holder⟩
    rw [hvid, hnum, List.length_map]

/-- A change that leaves the entities, the numbers and the windows alone keeps every
history. -/
theorem Histories.map {g : V → V} (hkey : ∀ v, T.key (g v) = T.key v)
    (hvid : ∀ v, T.vid (g v) = T.vid v) (hfrom : ∀ v, T.fromTs (g v) = T.fromTs v)
    (hto : ∀ v, T.toTs (g v) = T.toTs v) (h : T.Histories log) : T.Histories (log.map g) := by
  intro k
  have hversions : T.versions (log.map g) k = (T.versions log k).map g := by
    unfold versions
    rw [List.filter_map]
    congr 1
    exact List.filter_congr fun v _ => by rw [Function.comp_apply, hkey]
  rw [hversions]
  exact (h k).map hvid hfrom hto

/-! ## One open row for each value of an attribute -/

variable {A : Type} [DecidableEq A]

/-- An open row of an attribute. -/
def isOpen (T : SoftTable V K) (attr : V → A) (a : A) (v : V) : Bool := T.toTs v = ⊤ ∧ attr v = a

/-- No two open rows have the same attribute. -/
def OneOpen (T : SoftTable V K) (attr : V → A) (log : List V) : Prop :=
  ∀ a, log.countP (T.isOpen attr a) ≤ 1

variable {attr : V → A} {a : A}

omit [DecidableEq K] in
/-- A row is open for a value when it is current and has the value. -/
theorem isOpen_iff : T.isOpen attr a v = true ↔ T.toTs v = ⊤ ∧ attr v = a := decide_eq_true_iff

omit [DecidableEq K] in
/-- An empty table has no open row at all. -/
theorem OneOpen.nil : T.OneOpen attr [] := fun _ => Nat.zero_le 1

omit [DecidableEq K] in
/-- Two open rows of the same attribute are one. -/
theorem OneOpen.eq (h : T.OneOpen attr log) (hv : v ∈ log) (hw : w ∈ log)
    (hvo : T.isOpen attr a v = true) (hwo : T.isOpen attr a w = true) : v = w := by
  have hle := h a
  rw [List.countP_eq_length_filter] at hle
  have hvf := List.mem_filter.mpr ⟨hv, hvo⟩
  have hwf := List.mem_filter.mpr ⟨hw, hwo⟩
  generalize log.filter (T.isOpen attr a) = rows at hle hvf hwf
  match rows, hle with
  | [x], _ => rw [List.mem_singleton.mp hvf, List.mem_singleton.mp hwf]

/-- A close leaves the open rows of the other entities, as they were. -/
theorem filter_closeOpen (now : ℤ) (name : Option K) (log : List V) :
    (T.closeOpen now name log).filter (fun v => T.toTs v = ⊤) =
      log.filter (fun v => T.toTs v = ⊤ ∧ some (T.key v) ≠ name) := by
  induction log with
  | nil => rfl
  | cons v log ih =>
    rw [closeOpen, List.map_cons, ← closeOpen]
    by_cases hclose : some (T.key v) = name ∧ T.toTs v = ⊤
    · rw [if_pos hclose, List.filter_cons_of_neg, List.filter_cons_of_neg, ih]
      · rw [decide_eq_true_eq]
        exact fun hboth => hboth.2 hclose.1
      · rw [decide_eq_true_eq, T.toTs_closeAt]
        exact WithTop.coe_ne_top
    · rw [if_neg hclose]
      by_cases hopen : T.toTs v = ⊤
      · rw [List.filter_cons_of_pos (by simpa using hopen), List.filter_cons_of_pos, ih]
        exact decide_eq_true ⟨hopen, fun hname => hclose ⟨hname, hopen⟩⟩
      · rw [List.filter_cons_of_neg (by simpa using hopen), List.filter_cons_of_neg, ih]
        rw [decide_eq_true_eq]
        exact fun hboth => hopen hboth.1

/-- The open rows after a close are those of the other entities. -/
theorem countP_closeOpen (name : Option K) (a : A) (log : List V) :
    (T.closeOpen now name log).countP (T.isOpen attr a) =
      log.countP (fun v => T.isOpen attr a v && some (T.key v) ≠ name) := by
  unfold closeOpen
  rw [List.countP_map]
  refine List.countP_congr fun v _ => ?_
  rw [Function.comp_apply, isOpen_iff, Bool.and_eq_true, isOpen_iff, decide_eq_true_eq]
  split
  · next h =>
    rw [T.toTs_closeAt]
    exact iff_of_false (fun hno => WithTop.coe_ne_top hno.1) (fun hno => hno.2 h.1)
  · next h =>
    rw [iff_self_and]
    exact fun hopen hname => h ⟨hname, hopen.1⟩

/-- **A write keeps open rows apart exactly when** no open row of another entity has the
attribute that it writes. -/
theorem oneOpen_append_iff (h : T.OneOpen attr log) {r : V} (hto : T.toTs r = ⊤) :
    T.OneOpen attr (r :: T.closeOpen now (some (T.key r)) log) ↔
      ∀ v ∈ log, T.isOpen attr (attr r) v = true → T.key v = T.key r := by
  constructor
  · intro hone v hv hvo
    by_contra hne
    have hle := hone (attr r)
    rw [List.countP_cons_of_pos (isOpen_iff.mpr ⟨hto, rfl⟩), countP_closeOpen] at hle
    have hzero := Nat.le_zero.mp (Nat.le_of_succ_le_succ hle)
    refine List.countP_eq_zero.mp hzero v hv ?_
    rw [hvo, Bool.true_and, decide_eq_true_eq]
    exact fun hname => hne (Option.some.inj hname)
  · intro hfree a
    by_cases ha : attr r = a
    · subst ha
      rw [List.countP_cons_of_pos (isOpen_iff.mpr ⟨hto, rfl⟩), countP_closeOpen]
      refine Nat.succ_le_succ (Nat.le_zero.mpr (List.countP_eq_zero.mpr fun v hv hp => ?_))
      obtain ⟨hvo, hne⟩ := (Bool.and_eq_true _ _).mp hp
      exact of_decide_eq_true hne (congrArg some (hfree v hv hvo))
    · rw [List.countP_cons_of_neg (fun hp => ha (isOpen_iff.mp hp).2), countP_closeOpen]
      refine le_trans (List.countP_mono_left fun v _ hv => ?_) (h a)
      exact ((Bool.and_eq_true _ _).mp hv).1

end SoftTable
