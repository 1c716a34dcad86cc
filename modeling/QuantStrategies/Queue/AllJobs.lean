import QuantStrategies.Queue.OneJob

/-!
# All jobs of the queue

What holds of every job that has a child, and of the loop's table of children, holds
between any two steps of a tick (`TickInv`). What happens to one job leaves the others as
they are, and so a step that works through a list of jobs is taken job by job: here the
steps of the loop are.

A step that is about one job is taken through `JobView` and leaves the views of all others
alone. So each of the four steps of a tick has the same plan: what it adds (`Extends`), that
it keeps the invariant for one job, and then, by induction on the list that it works
through, for all.
-/

namespace Queue

variable {x : QueueRow}

/-! ## All jobs -/

/-- The process of a child. -/
def IsChild (pid queueId : ℕ) : Agent → Prop
  | .child p q => p = pid ∧ q = queueId
  | .childRun p _ => p = pid
  | .childDone p => p = pid
  | _ => False

/-- A cancel request decides on its write by the status that it read. -/
def IsRequest : Agent → Prop
  | .cancel _ _ => True
  | .cancelWrite row _ target => cancelTarget row.queueStatus = some target
  | .cancelDone => True
  | _ => False

/-- The child of a number, and where it stands. -/
def HasChild (s : TickState) (pid : ℕ) (p : Proc) (a : Agent) : Prop :=
  s.shared.procs[pid]? = some p ∧ s.children[pid]? = some a

/-- What concerns the job of a child. -/
def jobView (s : TickState) (p : Proc) (a : Agent) : JobView where
  rows := versions s.shared.queue p.queueId
  agent := a
  exit := p.exit
  tracked := tracks s.active p.queueId
  crashed := p.queueId ∈ s.crashed

/-- A job of which nothing has changed. -/
theorem JobOk.elsewhere {s s' : TickState} {p : Proc} {a : Agent} (h : JobOk (jobView s p a))
    (hrows : versions s'.shared.queue p.queueId = versions s.shared.queue p.queueId)
    (htracked : tracks s'.active p.queueId = tracks s.active p.queueId)
    (hcrashed : p.queueId ∈ s'.crashed ↔ p.queueId ∈ s.crashed) : JobOk (jobView s' p a) := by
  unfold jobView at h ⊢
  rw [hrows, htracked]
  simp only [hcrashed]
  exact h

/-- What holds between two steps. -/
structure TickInv (cfg : LoopConfig) (s : TickState) : Prop where
  /-- The versions of each job are numbered in the order they were written. -/
  numbered : Numbered s.shared.queue
  /-- A job is queued when it is submitted, and never again. -/
  queuedFirst : QueuedFirst s.shared.queue
  /-- There is a place for each child process. -/
  aligned : s.children.length = s.shared.procs.length
  /-- No two children are of one job. -/
  apart : (s.shared.procs.map Proc.queueId).Nodup
  /-- What holds of a job that has a child. -/
  jobs : ∀ pid p a, HasChild s pid p a → JobOk (jobView s p a) ∧ IsChild pid p.queueId a
  /-- A job has one entry in the loop's table. -/
  activeApart : (s.active.map Active.queueId).Nodup
  /-- Each entry has the child of its job, and a row of it. -/
  entries : ∀ e ∈ s.active, (s.shared.procs.map Proc.queueId)[e.pid]? = some e.queueId ∧
    e.row.queueId = e.queueId
  /-- A job noted as crashed had a child. -/
  crashes : ∀ queueId ∈ s.crashed, queueId ∈ s.shared.procs.map Proc.queueId
  /-- The cancel requests decide by what they have read. -/
  requests : ∀ a ∈ s.requests, IsRequest a
  /-- No more children are tracked than there are slots. -/
  slots : s.active.length ≤ cfg.maxConcurrent

section Reads

variable {queue : List QueueRow} {queueId : ℕ} {active : List Active} {s : QueueState} {pid : ℕ}

/-- The status that a query for the open version finds is that of the newest one, as versions are
numbered in order. -/
theorem openStatus_eq (hn : Numbered queue) :
    openStatus queue queueId = newestStatus (versions queue queueId) := by
  rw [openStatus, fetchJob_eq hn, newestStatus]

/-- A new version of the job is in front of its others. -/
theorem versions_cons_of_eq (h : x.queueId = queueId) :
    versions (x :: queue) queueId = x :: versions queue queueId := by
  rw [versions_cons, if_pos h]

theorem versions_cons_of_ne (h : x.queueId ≠ queueId) :
    versions (x :: queue) queueId = versions queue queueId := by
  rw [versions_cons, if_neg h]

/-- Writing about one job leaves the versions of another as they are. -/
theorem versions_write_of_ne {writer : QueueWriter} {row : QueueRow} {status : QueueStatus}
    {userId : String} {errorText : Option String} (h : queueId ≠ row.queueId) :
    versions (s.write writer row status userId errorText).queue queueId =
      versions s.queue queueId :=
  versions_cons_of_ne (Ne.symm h)

/-- A job is tracked when an entry has its key. -/
theorem tracks_iff : tracks active queueId = true ↔ queueId ∈ active.map Active.queueId := by
  rw [tracks, List.any_eq_true, List.mem_map]
  simp only [decide_eq_true_eq]

/-- A job that is dropped is no longer tracked. -/
theorem tracks_popActive : tracks (popActive active queueId) queueId = false :=
  Bool.eq_false_iff.mpr fun h => not_mem_popActive active queueId (tracks_iff.mp h)

theorem tracks_popActive_of_ne {k : ℕ} (h : k ≠ queueId) :
    tracks (popActive active queueId) k = tracks active k := by
  refine Bool.eq_iff_iff.mpr ?_
  rw [tracks_iff, tracks_iff, List.mem_map, List.mem_map]
  refine exists_congr fun e => ⟨fun ⟨he, hk⟩ => ⟨(mem_popActive.mp he).1, hk⟩, fun ⟨he, hk⟩ => ?_⟩
  exact ⟨mem_popActive.mpr ⟨he, hk ▸ h⟩, hk⟩

/-- A child lives while it has no exit code. -/
theorem alive_iff : s.alive pid = true ↔ ∃ p, s.procs[pid]? = some p ∧ p.exit = none := by
  unfold QueueState.alive
  cases hp : s.procs[pid]? with
  | none => exact iff_of_false Bool.false_ne_true fun ⟨p, h, _⟩ => absurd h nofun
  | some p =>
    exact ⟨fun h => ⟨p, rfl, Option.isNone_iff_eq_none.mp h⟩,
      fun ⟨p', h, hexit⟩ => Option.some.inj h ▸ Option.isNone_iff_eq_none.mpr hexit⟩

/-- Ending a child gives it an exit code, unless it has one, and touches no other. -/
theorem procs_endProc {code : ℤ} {k : ℕ} : (s.endProc pid code).procs[k]? =
    if pid = k then s.procs[k]?.map (fun p => { p with exit := some (p.exit.getD code) })
    else s.procs[k]? := by
  show (s.procs.modify pid _)[k]? = _
  rw [List.getElem?_modify]
  split
  · rfl
  · exact Option.map_id'

/-- The children stay those of the same jobs. -/
theorem keys_endProc {code : ℤ} :
    (s.endProc pid code).procs.map Proc.queueId = s.procs.map Proc.queueId := by
  refine List.ext_getElem? fun k => ?_
  rw [List.getElem?_map, List.getElem?_map, procs_endProc]
  split
  · rw [Option.map_map]
    rfl
  · rfl

end Reads

namespace TickInv

variable {cfg : LoopConfig} {s : TickState} {pid : ℕ} {p : Proc} {a : Agent}

/-- A number is that of a process and of its child, or of neither. -/
theorem child (h : TickInv cfg s) (ha : s.children[pid]? = some a) :
    ∃ p, HasChild s pid p a := by
  obtain ⟨hlt, -⟩ := List.getElem?_eq_some_iff.mp ha
  exact ⟨_, List.getElem?_eq_getElem (h.aligned ▸ hlt), ha⟩

/-- Every child process has a place in the state. -/
theorem proc (h : TickInv cfg s) (hp : s.shared.procs[pid]? = some p) :
    ∃ a, HasChild s pid p a := by
  obtain ⟨hlt, -⟩ := List.getElem?_eq_some_iff.mp hp
  exact ⟨_, hp, List.getElem?_eq_getElem (h.aligned.symm ▸ hlt)⟩

/-- A child's job, by the child's number. -/
theorem key (hp : s.shared.procs[pid]? = some p) :
    (s.shared.procs.map Proc.queueId)[pid]? = some p.queueId := by
  rw [List.getElem?_map, hp]
  rfl

/-- Two children are of two jobs. -/
theorem pid_eq (h : TickInv cfg s) {pid' queueId : ℕ}
    (hp : (s.shared.procs.map Proc.queueId)[pid]? = some queueId)
    (hp' : (s.shared.procs.map Proc.queueId)[pid']? = some queueId) : pid = pid' :=
  (List.getElem?_inj (List.getElem?_eq_some_iff.mp hp).1 h.apart).mp (hp.trans hp'.symm)

/-- Two children are of two jobs. -/
theorem key_ne (h : TickInv cfg s) {pid' : ℕ} {p' : Proc} (hp : s.shared.procs[pid]? = some p)
    (hp' : s.shared.procs[pid']? = some p') (hne : pid' ≠ pid) : p'.queueId ≠ p.queueId :=
  fun hk => hne (h.pid_eq (key hp') (hk ▸ key hp))

/-- A job has one child. -/
theorem child_eq (h : TickInv cfg s) {pid' : ℕ} {p' : Proc} {a' : Agent}
    (hpa : HasChild s pid p a) (hpa' : HasChild s pid' p' a') (hk : p.queueId = p'.queueId) :
    p = p' := by
  have hpid := h.pid_eq (key hpa.1) ((key hpa'.1).trans (congrArg some hk.symm))
  exact Option.some.inj (hpa.1.symm.trans (hpid ▸ hpa'.1))

/-- The child that the loop tracks for a job. -/
theorem entry (h : TickInv cfg s) {e : Active} (he : e ∈ s.active) :
    ∃ p a, HasChild s e.pid p a ∧ p.queueId = e.queueId ∧ tracks s.active p.queueId = true := by
  have hkey := (h.entries e he).1
  rw [List.getElem?_map] at hkey
  obtain ⟨p, hp, hk⟩ := Option.map_eq_some_iff.mp hkey
  obtain ⟨a, ha⟩ := h.proc hp
  exact ⟨p, a, ha, hk, tracks_iff.mpr (hk ▸ List.mem_map_of_mem he)⟩

/-- A job noted as crashed has its child. -/
theorem crashedChild (h : TickInv cfg s) {queueId : ℕ} (hcrashed : queueId ∈ s.crashed) :
    ∃ pid p a, HasChild s pid p a ∧ p.queueId = queueId := by
  obtain ⟨pid, hpid⟩ := List.mem_iff_getElem?.mp (h.crashes queueId hcrashed)
  rw [List.getElem?_map] at hpid
  obtain ⟨p, hp, hk⟩ := Option.map_eq_some_iff.mp hpid
  obtain ⟨a, hpa⟩ := h.proc hp
  exact ⟨pid, p, a, hpa, hk⟩

/-- The next step of a tick may come. -/
theorem setPhase (h : TickInv cfg s) (phase : Phase) : TickInv cfg { s with phase := phase } :=
  { h with }

/-- The loop writes the end of a job and drops its child. -/
theorem endJob (h : TickInv cfg s) {row : QueueRow} {status : QueueStatus}
    {errorText : Option String} (hstatus : status.isTerminal = true)
    (hjob : ∀ pid p a, HasChild s pid p a → p.queueId = row.queueId →
      endsOf (versions s.shared.queue row.queueId) = 0 ∧ p.exit ≠ some 0) :
    TickInv cfg { s with
      shared := markTerminal s.shared row status errorText
      active := popActive s.active row.queueId } := by
  have hlive {status' : QueueStatus} (hs : status'.isTerminal = false) : status ≠ status' :=
    fun heq => Bool.false_ne_true (hs.symm.trans (heq ▸ hstatus))
  refine { h with
    numbered := h.numbered.append rfl
    queuedFirst := List.pairwise_cons.mpr ⟨fun _ _ _ => hlive rfl, h.queuedFirst⟩
    jobs := fun pid p a hpa => ?_
    activeApart := (List.filter_sublist.map Active.queueId).nodup h.activeApart
    entries := fun e he => h.entries e (mem_popActive.mp he).1
    slots := (List.length_filter_le _ _).trans h.slots }
  have hpa' : HasChild s pid p a := hpa
  obtain ⟨hok, hchild⟩ := h.jobs pid p a hpa'
  refine ⟨?_, hchild⟩
  by_cases hk : p.queueId = row.queueId
  · obtain ⟨hends, hexit⟩ := hjob pid p a hpa' hk
    unfold jobView at hok ⊢
    rw [hk] at hok ⊢
    rw [tracks_popActive]
    have hrows : versions (markTerminal s.shared row status errorText).queue row.queueId = _ :=
      versions_cons_of_eq rfl
    rw [hrows]
    exact hok.endJob rfl hstatus hends hexit
  · exact hok.elsewhere (versions_write_of_ne hk) (tracks_popActive_of_ne hk) Iff.rfl

/-- The loop drops a child that has ended. -/
theorem untrack (h : TickInv cfg s) {queueId : ℕ}
    (hjob : ∀ pid p a, HasChild s pid p a → p.queueId = queueId → p.exit ≠ none ∧
      (queueId ∈ s.crashed → newestStatus (versions s.shared.queue queueId) ≠ some .running)) :
    TickInv cfg { s with active := popActive s.active queueId } := by
  refine { h with
    jobs := fun pid p a hpa => ?_
    activeApart := (List.filter_sublist.map Active.queueId).nodup h.activeApart
    entries := fun e he => h.entries e (mem_popActive.mp he).1
    slots := (List.length_filter_le _ _).trans h.slots }
  have hpa' : HasChild s pid p a := hpa
  obtain ⟨hok, hchild⟩ := h.jobs pid p a hpa'
  refine ⟨?_, hchild⟩
  by_cases hk : p.queueId = queueId
  · obtain ⟨hexit, hcrashed⟩ := hjob pid p a hpa' hk
    unfold jobView at hok ⊢
    rw [hk] at hok ⊢
    rw [tracks_popActive]
    exact hok.untrack hexit fun hc => hcrashed (of_decide_eq_true hc)
  · exact hok.elsewhere rfl (tracks_popActive_of_ne hk) Iff.rfl

/-- The loop kills a child. -/
theorem kill (h : TickInv cfg s) (stuck : List ℕ) (pid : ℕ) {code : ℤ} (hcode : code ≠ 0) :
    TickInv cfg { s with shared := killChild s.shared stuck pid code } := by
  unfold killChild
  split
  · exact h
  refine { h with
    aligned := ?_, apart := ?_, jobs := fun pid' p a hpa => ?_, entries := ?_, crashes := ?_ }
  · exact h.aligned.trans (List.length_modify _ _ _).symm
  · rw [keys_endProc]
    exact h.apart
  · obtain ⟨hp, ha⟩ := hpa
    rw [procs_endProc] at hp
    split at hp
    · obtain ⟨q, hq, rfl⟩ := Option.map_eq_some_iff.mp hp
      obtain ⟨hok, hchild⟩ := h.jobs pid' q a ⟨hq, ha⟩
      exact ⟨hok.kill hcode, hchild⟩
    · exact h.jobs pid' p a ⟨hp, ha⟩
  · rw [keys_endProc]
    exact h.entries
  · rw [keys_endProc]
    exact h.crashes

end TickInv

/-! ## Job by job -/

/-- The state with the loop's part of it replaced. -/
abbrev TickState.moved (s : TickState) (l : QueueState × List Active) : TickState :=
  { s with shared := l.1, active := l.2 }

section Steps

variable {cfg : LoopConfig} {s : TickState} {l : QueueState × List Active} {stuck : List ℕ}

theorem killChild_queue (s : QueueState) (stuck : List ℕ) (pid : ℕ) (code : ℤ) :
    (killChild s stuck pid code).queue = s.queue := by
  unfold killChild
  split
  · rfl
  · rfl

/-- Whether a job is ended before or after its child is killed comes to the same. -/
theorem markTerminal_killChild (s : QueueState) (stuck : List ℕ) (pid : ℕ) (code : ℤ)
    (row : QueueRow) (status : QueueStatus) (errorText : Option String) :
    markTerminal (killChild s stuck pid code) row status errorText =
      killChild (markTerminal s row status errorText) stuck pid code := by
  unfold killChild
  split
  · rfl
  · rfl

/-- What the steps of a tick leave: the table is added to, and the children are those of
the same jobs. -/
structure Extends (s s' : QueueState) : Prop where
  /-- Versions are added in front, and none is changed. -/
  queue : s.queue <:+ s'.queue
  /-- No child comes or goes. -/
  keys : s'.procs.map Proc.queueId = s.procs.map Proc.queueId

theorem Extends.refl (s : QueueState) : Extends s s := ⟨List.suffix_rfl, rfl⟩

theorem Extends.trans {s s' s'' : QueueState} (h : Extends s s') (h' : Extends s' s'') :
    Extends s s'' :=
  ⟨h.queue.trans h'.queue, h'.keys.trans h.keys⟩

theorem extends_markTerminal (s : QueueState) (row : QueueRow) (status : QueueStatus)
    (errorText : Option String) : Extends s (markTerminal s row status errorText) :=
  ⟨List.suffix_cons _ _, rfl⟩

theorem extends_killChild (s : QueueState) (stuck : List ℕ) (pid : ℕ) (code : ℤ) :
    Extends s (killChild s stuck pid code) := by
  unfold killChild
  split
  · exact .refl s
  · exact ⟨List.suffix_rfl, keys_endProc⟩

/-- A list is worked through by adding at every entry. -/
theorem extends_foldl {α : Type} {f : QueueState × List Active → α → QueueState × List Active}
    (hf : ∀ l x, Extends l.1 (f l x).1) (xs : List α) (l : QueueState × List Active) :
    Extends l.1 (xs.foldl f l).1 := by
  induction xs generalizing l with
  | nil => exact .refl l.1
  | cons x xs ih => exact (hf l x).trans (ih (f l x))

/-- Reaping one child adds at most its end. -/
theorem extends_reapChild (l : QueueState × List Active) (e : Active) :
    Extends l.1 (reapChild l e).1 := by
  unfold reapChild
  dsimp only
  split
  · exact .refl _
  · split
    · exact .refl _
    · split
      · exact extends_markTerminal _ _ _ _
      · exact .refl _

theorem extends_reapChildren (s : QueueState) (active : List Active) :
    Extends s (reapChildren s active).1 :=
  extends_foldl extends_reapChild _ (s, active)

/-- Reaping looks at children that have ended and touches no process. -/
theorem reapChild_procs (l : QueueState × List Active) (e : Active) :
    (reapChild l e).1.procs = l.1.procs := by
  unfold reapChild
  dsimp only
  split
  · rfl
  · split
    · rfl
    · split
      · rfl
      · rfl

/-- The child that is reaped leaves the table. -/
theorem reapChild_active (l : QueueState × List Active) (e : Active) :
    (reapChild l e).2 = popActive l.2 e.queueId := by
  unfold reapChild
  dsimp only
  split
  · rfl
  · split
    · rfl
    · split
      · rfl
      · rfl

/-- A child that has ended is reaped. -/
theorem reapChild_inv (h : TickInv cfg (s.moved l)) {e : Active}
    (hkey : (l.1.procs.map Proc.queueId)[e.pid]? = some e.queueId)
    (hexit : (l.1.exitCode e.pid).isSome) : TickInv cfg (s.moved (reapChild l e)) := by
  rw [List.getElem?_map] at hkey
  obtain ⟨p, hp, hk⟩ := Option.map_eq_some_iff.mp hkey
  obtain ⟨a, hpa⟩ := h.proc hp
  have hok := (h.jobs e.pid p a hpa).1
  obtain ⟨code, hcode⟩ := Option.isSome_iff_exists.mp hexit
  have hpexit : p.exit = some code := by
    rw [QueueState.exitCode, hp] at hcode
    exact hcode
  unfold reapChild
  dsimp only
  rw [hcode, Option.getD_some]
  split
  -- it has exited with zero
  · next hzero =>
    refine h.untrack fun pid' p' a' hpa' hk' => ?_
    obtain rfl := h.child_eq hpa hpa' (hk.trans hk'.symm)
    refine ⟨by rw [hpexit]; nofun, fun hcrashed => ?_⟩
    obtain ⟨⟨c, hc, hne⟩, -⟩ := hok.crash (decide_eq_true (hk ▸ hcrashed))
    exact absurd (Option.some.inj (hc.symm.trans hpexit) ▸ hzero) hne
  · have hclaimed : Claimed (versions l.1.queue e.queueId) := hk ▸ hok.claimed
    obtain ⟨latest, hlatest, hiff⟩ := getActive_of_claimed hclaimed
    have hkl : latest.queueId = e.queueId := (getActive_mem hlatest).2
    rw [hlatest]
    dsimp only
    split
    -- it has crashed, and its job is running
    · next hrunning =>
      have hover := not_over_of_status (hiff.mp hrunning) rfl
      rw [← hkl]
      refine h.endJob rfl fun pid' p' a' hpa' hk' => ?_
      obtain rfl := h.child_eq hpa hpa' ((hk.trans hkl.symm).trans hk'.symm)
      have hover' : ¬ Over (versions l.1.queue p.queueId) := hk ▸ hover
      refine ⟨?_, hok.exit_ne_zero hover'⟩
      rw [← hk']
      exact hok.endsOf_eq_zero hover'
    -- or another program has written since
    · next hended =>
      refine h.untrack fun pid' p' a' hpa' hk' => ?_
      obtain rfl := h.child_eq hpa hpa' (hk.trans hk'.symm)
      exact ⟨by rw [hpexit]; nofun, fun _ hrunning => hended (hiff.mpr hrunning)⟩

/-- The children that remain when others have been reaped. -/
theorem mem_foldl_reapChild {es : List Active} {e : Active}
    (he : e ∈ (es.foldl reapChild l).2) : e ∈ l.2 ∧ ∀ e' ∈ es, e.queueId ≠ e'.queueId := by
  induction es generalizing l with
  | nil => exact ⟨he, fun e' he' => absurd he' List.not_mem_nil⟩
  | cons e' es ih =>
    obtain ⟨hmem, hne⟩ := ih he
    rw [reapChild_active, mem_popActive] at hmem
    exact ⟨hmem.1, List.forall_mem_cons.mpr ⟨hmem.2, hne⟩⟩

theorem reapChildren_procs (s : QueueState) (active : List Active) :
    (reapChildren s active).1.procs = s.procs := by
  unfold reapChildren
  generalize active.filter (fun e => (s.exitCode e.pid).isSome) = es
  suffices ∀ l : QueueState × List Active, (es.foldl reapChild l).1.procs = l.1.procs from
    this (s, active)
  induction es with
  | nil => exact fun _ => rfl
  | cons e es ih => exact fun l => (ih (reapChild l e)).trans (reapChild_procs l e)

/-- **Reaping keeps the invariant.** A child that is reaped has exited, so that its slot is free;
the row of one that crashed is the loop's to end. -/
theorem reapChildren_inv (h : TickInv cfg s) :
    TickInv cfg (s.moved (reapChildren s.shared s.active)) := by
  have hfold (es : List Active) (l : QueueState × List Active) (h : TickInv cfg (s.moved l))
      (hes : ∀ e ∈ es, (l.1.procs.map Proc.queueId)[e.pid]? = some e.queueId ∧
        (l.1.exitCode e.pid).isSome) : TickInv cfg (s.moved (es.foldl reapChild l)) := by
    induction es generalizing l with
    | nil => exact h
    | cons e es ih =>
      obtain ⟨⟨hkey, hexit⟩, hes⟩ := List.forall_mem_cons.mp hes
      refine ih (reapChild l e) (reapChild_inv h hkey hexit) ?_
      simp only [QueueState.exitCode, reapChild_procs] at hes ⊢
      exact hes
  refine hfold _ (s.shared, s.active) h fun e he => ?_
  obtain ⟨hmem, hexit⟩ := List.mem_filter.mp he
  exact ⟨(h.entries e hmem).1, hexit⟩

/-- Those that crashed are ended, but for those that a cancel was requested of. -/
theorem reapChildren_due (h : TickInv cfg s) {queueId : ℕ} (hcrashed : queueId ∈ s.crashed) :
    loopEnds (reapChildren s.shared s.active).1.queue queueId = 1 ∨
      openStatus (reapChildren s.shared s.active).1.queue queueId = some .cancelRequested := by
  have h' := reapChildren_inv h
  obtain ⟨pid, p, a, hpa, hk⟩ := h'.crashedChild hcrashed
  have hok := (h'.jobs pid p a hpa).1
  rw [loopEnds_eq, openStatus_eq h'.numbered, ← hk]
  obtain ⟨⟨code, hcode, -⟩, hone | ⟨htracked, -⟩ | hrequested⟩ :=
    hok.crash (decide_eq_true (hk.symm ▸ hcrashed))
  · exact .inl hone
  -- a child that has ended is no longer tracked
  · obtain ⟨e, he, hke⟩ := List.mem_map.mp (tracks_iff.mp htracked)
    obtain ⟨hmem, hne⟩ := mem_foldl_reapChild he
    obtain ⟨p', a', hpa', hk', -⟩ := h'.entry he
    obtain rfl := h'.child_eq hpa hpa' (hke.symm.trans hk'.symm)
    have hexit : s.shared.exitCode e.pid = some code := by
      rw [QueueState.exitCode, ← reapChildren_procs s.shared s.active, hpa'.1]
      exact hcode
    exact absurd rfl (hne e (List.mem_filter.mpr ⟨hmem, by rw [hexit]; rfl⟩))
  · exact .inr hrequested

/-- The loop ends a job that has not ended, and whose child it kills. -/
theorem endKilled_inv (h : TickInv cfg (s.moved l)) {row : QueueRow} {status : QueueStatus}
    {errorText : Option String} {code : ℤ} (pid : ℕ) (hcode : code ≠ 0)
    (hstatus : status.isTerminal = true)
    (hjob : ∀ pid p a, HasChild (s.moved l) pid p a → p.queueId = row.queueId →
      endsOf (versions l.1.queue row.queueId) = 0 ∧ p.exit ≠ some 0) :
    TickInv cfg (s.moved (markTerminal (killChild l.1 stuck pid code) row status errorText,
      popActive l.2 row.queueId)) := by
  rw [markTerminal_killChild]
  exact (h.endJob hstatus hjob).kill stuck pid hcode

/-- What was written stays. -/
theorem loopEnds_le {queue queue' : List QueueRow} (h : queue <:+ queue') (queueId : ℕ) :
    loopEnds queue queueId ≤ loopEnds queue' queueId :=
  h.sublist.countP_le

/-- An end that the loop writes counts for its job. -/
theorem loopEnds_markTerminal {s : QueueState} {row : QueueRow} {status : QueueStatus}
    {errorText : Option String} (hstatus : status.isTerminal = true) :
    1 ≤ loopEnds (markTerminal s row status errorText).queue row.queueId := by
  rw [loopEnds_eq]
  have hrows : versions (markTerminal s row status errorText).queue row.queueId = _ :=
    versions_cons_of_eq rfl
  rw [hrows]
  exact (Nat.le_add_left 1 _).trans (Eq.ge (endsOf_cons_of_end rfl hstatus))

/-- Honouring one cancel adds at most the end of its job. -/
theorem extends_enforceCancel (l : QueueState × List Active) (row : QueueRow) :
    Extends l.1 (enforceCancel stuck l row).1 := by
  unfold enforceCancel
  dsimp only
  split
  · exact extends_markTerminal _ _ _ _
  · exact (extends_killChild _ _ _ _).trans (extends_markTerminal _ _ _ _)

theorem extends_enforceCancels (stuck : List ℕ) (s : QueueState) (active : List Active) :
    Extends s (enforceCancels stuck s active).1 :=
  extends_foldl extends_enforceCancel _ (s, active)

/-- A request that was found is honoured. -/
theorem enforceCancel_inv (h : TickInv cfg (s.moved l)) {row : QueueRow}
    (hrow : newestStatus (versions l.1.queue row.queueId) = some .cancelRequested) :
    TickInv cfg (s.moved (enforceCancel stuck l row)) := by
  have hover := not_over_of_status hrow rfl
  have hjob : ∀ pid p a, HasChild (s.moved l) pid p a → p.queueId = row.queueId →
      endsOf (versions l.1.queue row.queueId) = 0 ∧ p.exit ≠ some 0 := by
    intro pid p a hpa hk
    have hok := (h.jobs pid p a hpa).1
    rw [← hk] at hover ⊢
    exact ⟨hok.endsOf_eq_zero hover, hok.exit_ne_zero hover⟩
  unfold enforceCancel
  dsimp only
  split
  · exact h.endJob rfl hjob
  · exact endKilled_inv h _ (by decide) rfl hjob

/-- The job of a request is ended. -/
theorem enforceCancel_ends (row : QueueRow) :
    1 ≤ loopEnds (enforceCancel stuck l row).1.queue row.queueId := by
  unfold enforceCancel
  exact loopEnds_markTerminal rfl

/-- Those of another job are not touched. -/
theorem versions_enforceCancel {row : QueueRow} {queueId : ℕ} (hk : queueId ≠ row.queueId) :
    versions (enforceCancel stuck l row).1.queue queueId = versions l.1.queue queueId := by
  unfold enforceCancel
  dsimp only
  split
  · exact versions_write_of_ne hk
  · exact (versions_write_of_ne hk).trans (by rw [killChild_queue])

/-- Cancels of different jobs, one after the other. Each of these jobs has been ended by the loop
when the list is through. -/
theorem foldl_enforceCancel {rows : List QueueRow} (h : TickInv cfg (s.moved l))
    (hapart : (rows.map QueueRow.queueId).Nodup)
    (hrows : ∀ r ∈ rows, newestStatus (versions l.1.queue r.queueId) = some .cancelRequested) :
    TickInv cfg (s.moved (rows.foldl (enforceCancel stuck) l)) ∧
      ∀ r ∈ rows, 1 ≤ loopEnds (rows.foldl (enforceCancel stuck) l).1.queue r.queueId := by
  induction rows generalizing l with
  | nil => exact ⟨h, fun r hr => absurd hr List.not_mem_nil⟩
  | cons row rows ih =>
    obtain ⟨hrow, hrows⟩ := List.forall_mem_cons.mp hrows
    obtain ⟨hnot, hapart⟩ := List.nodup_cons.mp hapart
    obtain ⟨hinv, hends⟩ := ih (enforceCancel_inv h hrow) hapart fun r hr =>
      (congrArg newestStatus (versions_enforceCancel fun hk =>
        hnot (hk ▸ List.mem_map_of_mem hr))).trans (hrows r hr)
    refine ⟨hinv, List.forall_mem_cons.mpr ⟨?_, hends⟩⟩
    exact (enforceCancel_ends row).trans
      (loopEnds_le (extends_foldl extends_enforceCancel rows _).queue row.queueId)

/-- A row listed by a status is the newest of its job and has that status. -/
theorem newestStatus_of_listByStatus (hn : Numbered s.shared.queue) {status : QueueStatus}
    {r : QueueRow} (hr : r ∈ listByStatus s.shared.queue status) :
    newestStatus (versions s.shared.queue r.queueId) = some status := by
  have hopen := (listByStatus_sublist s.shared.queue status).mem hr
  rw [newestStatus, head?_versions hn hopen]
  exact congrArg some (listByStatus_status hr)

/-- No two rows of such a list are of one job. -/
theorem listByStatus_apart (hn : Numbered s.shared.queue) (status : QueueStatus) :
    ((listByStatus s.shared.queue status).map QueueRow.queueId).Nodup :=
  hn.pairwise_newest ((listByStatus_sublist _ _).trans (openRows_sublist _))
    fun _ hr _ hv hk => openRows_newest ((listByStatus_sublist _ _).mem hr) hv hk

/-- **Honouring the cancels keeps the invariant**, and the loop has ended every job that was to be
cancelled. -/
theorem enforceCancels_spec (h : TickInv cfg s) (stuck : List ℕ) :
    TickInv cfg (s.moved (enforceCancels stuck s.shared s.active)) ∧
      ∀ r ∈ listByStatus s.shared.queue .cancelRequested,
        1 ≤ loopEnds (enforceCancels stuck s.shared s.active).1.queue r.queueId :=
  foldl_enforceCancel h (listByStatus_apart h.numbered _) fun _ hr =>
    newestStatus_of_listByStatus h.numbered hr

/-! ### The timeout -/

variable {now : ℤ}

/-- A child that has run for too long is killed, and its job is ended. -/
theorem enforceTimeout_inv (h : TickInv cfg (s.moved l)) (queueId : ℕ) :
    TickInv cfg (s.moved (enforceTimeout cfg stuck now l queueId)) := by
  unfold enforceTimeout
  split
  · exact h
  · next e hfind =>
    have he := List.mem_of_find?_eq_some hfind
    split
    · exact h
    · next hover =>
      have hrow : e.row.queueId = e.queueId := (h.entries e he).2
      obtain ⟨p, a, hpa, hk, htracked⟩ := h.entry he
      have hjob : ∀ pid p a, HasChild (s.moved l) pid p a → p.queueId = e.row.queueId →
          endsOf (versions l.1.queue e.row.queueId) = 0 ∧ p.exit ≠ some 0 := by
        intro pid p' a' hpa' hk'
        obtain rfl := h.child_eq hpa hpa' ((hk.trans hrow.symm).trans hk'.symm)
        have hok := (h.jobs e.pid p a hpa).1
        refine ⟨hk' ▸ hok.endsOf_eq_zero_of_tracked htracked, fun hzero => hover (.inl ?_)⟩
        rw [QueueState.exitCode, hpa.1]
        exact Option.isSome_iff_exists.mpr ⟨0, hzero⟩
      rw [← hrow]
      exact endKilled_inv h _ (by decide) rfl hjob

/-- The timeout of one job adds at most its end. -/
theorem extends_enforceTimeout (l : QueueState × List Active) (queueId : ℕ) :
    Extends l.1 (enforceTimeout cfg stuck now l queueId).1 := by
  unfold enforceTimeout
  split
  · exact .refl _
  · split
    · exact .refl _
    · exact (extends_killChild _ _ _ _).trans (extends_markTerminal _ _ _ _)

theorem extends_enforceTimeouts (cfg : LoopConfig) (stuck : List ℕ) (s : QueueState)
    (active : List Active) : Extends s (enforceTimeouts cfg stuck s active).1 :=
  extends_foldl extends_enforceTimeout _ (s, active)

/-- It is due when the child is found to be alive, and its time is up. -/
theorem enforceTimeout_ends (h : TickInv cfg (s.moved l)) {e : Active} (he : e ∈ l.2)
    (halive : l.1.alive e.pid) (hold : cfg.jobTimeout ≤ now - e.start) :
    1 ≤ loopEnds (enforceTimeout cfg stuck now l e.queueId).1.queue e.queueId := by
  have hfind : l.2.find? (fun e' => e'.queueId = e.queueId) = some e := by
    cases hfind : l.2.find? (fun e' => e'.queueId = e.queueId) with
    | none => exact absurd (decide_eq_true rfl) (List.find?_eq_none.mp hfind e he)
    | some e' =>
      have hdec := List.find?_some hfind
      exact congrArg some (List.inj_on_of_nodup_map h.activeApart
        (List.mem_of_find?_eq_some hfind) he (of_decide_eq_true hdec))
  have hin : ¬ ((l.1.exitCode e.pid).isSome ∨ now - e.start < cfg.jobTimeout) := by
    rintro (hexit | hlt)
    · obtain ⟨p, hp, hnone⟩ := alive_iff.mp halive
      rw [QueueState.exitCode, hp, Option.bind_some, hnone] at hexit
      exact absurd hexit Bool.false_ne_true
    · exact absurd hlt (not_lt.mpr hold)
  unfold enforceTimeout
  rw [hfind]
  dsimp only
  rw [if_neg hin, ← (h.entries e he).2]
  exact loopEnds_markTerminal rfl

/-- The other children stay as they are. -/
theorem enforceTimeout_other (h : TickInv cfg (s.moved l)) {queueId : ℕ} {e : Active}
    (he : e ∈ l.2) (halive : l.1.alive e.pid) (hk : e.queueId ≠ queueId) :
    e ∈ (enforceTimeout cfg stuck now l queueId).2 ∧
      (enforceTimeout cfg stuck now l queueId).1.alive e.pid := by
  unfold enforceTimeout
  split
  · exact ⟨he, halive⟩
  · next e' hfind =>
    have hdec := List.find?_some hfind
    have hk' : e'.queueId = queueId := of_decide_eq_true hdec
    split
    · exact ⟨he, halive⟩
    · refine ⟨mem_popActive.mpr ⟨he, hk' ▸ hk⟩, ?_⟩
      have hpid : e'.pid ≠ e.pid := by
        intro hpid
        have hkey := (h.entries e' (List.mem_of_find?_eq_some hfind)).1
        rw [hpid, (h.entries e he).1] at hkey
        exact hk ((Option.some.inj hkey).trans hk')
      obtain ⟨p, hp, hnone⟩ := alive_iff.mp halive
      refine alive_iff.mpr ⟨p, ?_, hnone⟩
      show (killChild l.1 stuck e'.pid (-9)).procs[e.pid]? = some p
      unfold killChild
      split
      · exact hp
      · rw [procs_endProc, if_neg hpid, hp]

/-- Timeouts, one after the other. Each job of the list that is tracked, lives and is out of time
has been ended when the list is through. -/
theorem foldl_enforceTimeout {queueIds : List ℕ} (h : TickInv cfg (s.moved l)) :
    TickInv cfg (s.moved (queueIds.foldl (enforceTimeout cfg stuck now) l)) ∧
      ∀ e ∈ l.2, e.queueId ∈ queueIds → l.1.alive e.pid → cfg.jobTimeout ≤ now - e.start →
        1 ≤ loopEnds (queueIds.foldl (enforceTimeout cfg stuck now) l).1.queue e.queueId := by
  induction queueIds generalizing l with
  | nil => exact ⟨h, fun e _ hk => absurd hk List.not_mem_nil⟩
  | cons k queueIds ih =>
    obtain ⟨hinv, hends⟩ := ih (enforceTimeout_inv h k)
    refine ⟨hinv, fun e he hk halive hold => ?_⟩
    by_cases hke : e.queueId = k
    · subst hke
      exact (enforceTimeout_ends h he halive hold).trans
        (loopEnds_le (extends_foldl extends_enforceTimeout queueIds _).queue e.queueId)
    · obtain ⟨he', halive'⟩ : _ ∧ (enforceTimeout cfg stuck now l k).1.alive e.pid :=
        enforceTimeout_other h he halive hke
      exact hends e he' ((List.mem_cons.mp hk).resolve_left hke) halive' hold

/-- **Enforcing the timeout keeps the invariant**, and the loop has ended every job whose child
ran out of time. -/
theorem enforceTimeouts_spec (h : TickInv cfg s) (stuck : List ℕ) :
    TickInv cfg (s.moved (enforceTimeouts cfg stuck s.shared s.active)) ∧
      ∀ e ∈ s.active, s.shared.alive e.pid → cfg.jobTimeout ≤ s.shared.clock - e.start →
        1 ≤ loopEnds (enforceTimeouts cfg stuck s.shared s.active).1.queue e.queueId := by
  obtain ⟨hinv, hends⟩ :
      TickInv cfg (s.moved (enforceTimeouts cfg stuck s.shared s.active)) ∧ _ :=
    foldl_enforceTimeout h
  exact ⟨hinv, fun e he => hends e he (List.mem_map_of_mem he)⟩

end Steps

end Queue
