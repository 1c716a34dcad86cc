import QuantStrategies.Queue.AllJobs
import QuantStrategies.Queue.Terminal

/-!
# Slots and ends

The steps of the children, of the cancel requests and of the claims are taken one by one,
and with those of the loop they make up a run. In each of its states there are no more
children than slots, and the loop ends each job at most once, none whose child has exited
with zero, and each that it is to end (`ticks_slotsAndEnds`).

A cancel request is the one program here that can write what it has not just read, and
where it writes too late, the loop ends a job whose child has exited with zero
(`exited_then_cancelled`).

Children, cancel requests and submissions move between the steps of a tick. Each of their
steps is given the form `Moves`: one child takes a place, and everything about the other
jobs stays. The invariant of `AllJobs` is then kept by each kind of step, and the promise of
a run is read off it.
-/

namespace Queue

/-! ## Children -/

/-- A step of one child: what becomes of it, and what stays. -/
structure Moves (s s' : TickState) (pid : ℕ) (p q : Proc) (b : Agent) : Prop where
  /-- The process takes its new place. -/
  procs : s'.shared.procs = s.shared.procs.set pid q
  /-- So does where it stands. -/
  children : s'.children = s.children.set pid b
  /-- It is of the same job. -/
  key : q.queueId = p.queueId
  /-- And the child of it. -/
  child : IsChild pid p.queueId b
  /-- The versions of other jobs stay. -/
  versions : ∀ k, k ≠ p.queueId → versions s'.shared.queue k = versions s.shared.queue k
  /-- No other job is noted as crashed, or forgotten. -/
  crashed : ∀ k, k ≠ p.queueId → (k ∈ s'.crashed ↔ k ∈ s.crashed)
  /-- The loop's table stays. -/
  active : s'.active = s.active
  /-- So do the cancel requests. -/
  requests : s'.requests = s.requests

section Children

variable {cfg : LoopConfig} {s s' : TickState} {pid : ℕ} {p q : Proc} {a b : Agent}

theorem set_of_getElem? {α : Type} {xs : List α} {i : ℕ} {y : α} (h : xs[i]? = some y) :
    xs.set i y = xs := by
  obtain ⟨hlt, rfl⟩ := List.getElem?_eq_some_iff.mp h
  exact List.set_getElem_self hlt

theorem modify_of_getElem? {α : Type} {xs : List α} {i : ℕ} {y : α} (f : α → α)
    (h : xs[i]? = some y) : xs.modify i f = xs.set i (f y) := by
  obtain ⟨hlt, rfl⟩ := List.getElem?_eq_some_iff.mp h
  exact List.modify_eq_set_get f hlt

theorem decide_mem_ite {c : Prop} [Decidable c] {k : ℕ} {ks : List ℕ} :
    decide (k ∈ if c then k :: ks else ks) = (decide (k ∈ ks) || decide c) := by
  by_cases hc : c
  · rw [if_pos hc, decide_eq_true List.mem_cons_self, decide_eq_true hc, Bool.or_true]
  · rw [if_neg hc, decide_eq_false hc, Bool.or_false]

/-- The children stay those of the same jobs. -/
theorem Moves.keys (h : Moves s s' pid p q b) (hp : s.shared.procs[pid]? = some p) :
    s'.shared.procs.map Proc.queueId = s.shared.procs.map Proc.queueId := by
  rw [h.procs, List.map_set, h.key]
  exact set_of_getElem? (TickInv.key hp)

/-- A step of one child concerns its own job. -/
theorem TickInv.moves (h : TickInv cfg s) (hpa : HasChild s pid p a) (hm : Moves s s' pid p q b)
    (hnumbered : Numbered s'.shared.queue) (hqueued : QueuedFirst s'.shared.queue)
    (hok : JobOk (jobView s' q b)) : TickInv cfg s' := by
  have hkeys := hm.keys hpa.1
  refine ⟨hnumbered, hqueued, ?_, hkeys ▸ h.apart, fun pid' p' a' hpa' => ?_,
    hm.active ▸ h.activeApart, ?_, fun k hk => ?_, hm.requests ▸ h.requests, hm.active ▸ h.slots⟩
  · rw [hm.children, hm.procs, List.length_set, List.length_set]
    exact h.aligned
  · obtain ⟨hp', ha'⟩ := hpa'
    rw [hm.procs, List.getElem?_set] at hp'
    rw [hm.children, List.getElem?_set] at ha'
    by_cases hpid : pid = pid'
    · subst hpid
      rw [if_pos rfl, if_pos (List.getElem?_eq_some_iff.mp hpa.1).1] at hp'
      rw [if_pos rfl, if_pos (List.getElem?_eq_some_iff.mp hpa.2).1] at ha'
      cases hp'
      cases ha'
      exact ⟨hok, hm.key ▸ hm.child⟩
    · rw [if_neg hpid] at hp' ha'
      obtain ⟨hok', hchild'⟩ := h.jobs pid' p' a' ⟨hp', ha'⟩
      have hk := h.key_ne hpa.1 hp' (Ne.symm hpid)
      exact ⟨hok'.elsewhere (hm.versions _ hk) (congrArg (tracks · _) hm.active) (hm.crashed _ hk),
        hchild'⟩
  · rw [hm.active, hkeys]
    exact h.entries
  · rw [hkeys]
    by_cases hkp : k = p.queueId
    · exact hkp ▸ List.mem_map_of_mem (List.mem_of_getElem? hpa.1)
    · exact h.crashes k ((hm.crashed k hkp).mp hk)

/-- A step of a child is one of its agent. -/
theorem of_stepChild (h : TickInv cfg s) {o : Outcome} (hstep : stepChild cfg s pid o = some s') :
    ∃ p a r, HasChild s pid p a ∧ stepAgent cfg s.shared a o = some r ∧
      s' = { s with shared := r.1, children := s.children.set pid r.2 } := by
  unfold stepChild at hstep
  split at hstep
  · cases hstep
  · next a ha =>
    obtain ⟨p, hpa⟩ := h.child ha
    obtain ⟨r, hr, rfl⟩ := Option.map_eq_some_iff.mp hstep
    exact ⟨p, a, r, hpa, hr, rfl⟩

/-- The child fetches its job. -/
theorem begins_inv (h : TickInv cfg s) (hstep : stepChild cfg s pid .go = some s') :
    TickInv cfg s' ∧ s'.shared.queue = s.shared.queue := by
  obtain ⟨p, a, r, hpa, hr, rfl⟩ := of_stepChild h hstep
  obtain ⟨hok, hchild⟩ := h.jobs pid p a hpa
  cases a with
  | child pid' queueId =>
    obtain ⟨rfl, rfl⟩ := hchild
    simp only [stepAgent] at hr
    split at hr
    · obtain ⟨status, hstatus, -⟩ := hok.claimed.status
      obtain ⟨job, hjob, -⟩ := Option.map_eq_some_iff.mp hstatus
      rw [fetchJob_eq h.numbered, show (versions _ _).head? = some job from hjob] at hr
      cases hr
      refine ⟨h.moves hpa ⟨modify_of_getElem? _ hpa.1, rfl, rfl, rfl, fun _ _ => rfl,
        fun _ _ => Iff.rfl, rfl, rfl⟩ h.numbered h.queuedFirst ?_, rfl⟩
      exact hok.begins (List.mem_of_head? hjob)
    · cases hr
  | childRun pid' job => exact absurd hr nofun
  | childDone pid' => exact absurd hr nofun
  | cancel _ _ => exact hchild.elim
  | cancelWrite _ _ _ => exact hchild.elim
  | cancelDone => exact hchild.elim
  | loop _ _ => exact hchild.elim

/-- The child writes the end of its job. -/
theorem finishes_inv (h : TickInv cfg s) {errorText : Option String}
    (hstep : stepChild cfg s pid (.finish errorText) = some s') :
    TickInv cfg s' ∧ s.shared.queue <:+ s'.shared.queue := by
  obtain ⟨p, a, r, hpa, hr, rfl⟩ := of_stepChild h hstep
  obtain ⟨hok, hchild⟩ := h.jobs pid p a hpa
  cases a with
  | childRun pid' job =>
    obtain rfl := hchild
    simp only [stepAgent] at hr
    split at hr
    · next halive =>
      cases hr
      obtain ⟨p', hp', hexit⟩ := alive_iff.mp halive
      obtain rfl := Option.some.inj (hpa.1.symm.trans hp')
      have hjob : job.queueId = p.queueId := (mem_versions.mp (hok.fetched _ _ rfl)).2
      have hterminal : QueueStatus.isTerminal
          (if errorText.isSome then .failed else .completed) = true := by
        split
        · rfl
        · rfl
      refine ⟨h.moves hpa ⟨(set_of_getElem? hpa.1).symm, rfl, rfl, rfl,
        fun k hk => versions_write_of_ne (hjob.symm ▸ hk), fun _ _ => Iff.rfl, rfl, rfl⟩
        (h.numbered.append rfl) ?_ ?_, List.suffix_cons _ _⟩
      · refine List.pairwise_cons.mpr ⟨fun _ _ _ heq => ?_, h.queuedFirst⟩
        exact not_terminal_of_status heq rfl hterminal
      · unfold jobView at hok ⊢
        have hrows : versions (s.shared.write .worker job
            (if errorText.isSome then .failed else .completed) job.userId
            errorText).queue p.queueId = _ := versions_cons_of_eq hjob
        dsimp only
        rw [hrows]
        exact hok.finishes rfl hterminal hexit
    · cases hr
  | child pid' queueId => exact absurd hr nofun
  | childDone pid' => exact absurd hr nofun
  | cancel _ _ => exact hchild.elim
  | cancelWrite _ _ _ => exact hchild.elim
  | cancelDone => exact hchild.elim
  | loop _ _ => exact hchild.elim

/-- The child exits. -/
theorem exits_inv (h : TickInv cfg s) {code : ℤ} (hstep : exitChild s pid code = some s') :
    TickInv cfg s' ∧ s'.shared.queue = s.shared.queue := by
  unfold exitChild at hstep
  split at hstep
  · next a p ha hp =>
    split at hstep
    · next hexit =>
      obtain ⟨hnone, hzero⟩ := hexit
      cases hstep
      have hpa : HasChild s pid p a := ⟨hp, ha⟩
      obtain ⟨hok, hchild⟩ := h.jobs pid p a hpa
      refine ⟨h.moves hpa ⟨modify_of_getElem? _ hp, (set_of_getElem? ha).symm, rfl, hchild,
        fun _ _ => rfl, fun k hk => ?_, rfl, rfl⟩ h.numbered h.queuedFirst ?_, rfl⟩
      · dsimp only
        split
        · exact List.mem_cons.trans (or_iff_right hk)
        · exact Iff.rfl
      · have hexits := hok.exits hnone fun hz => hzero hz
        unfold jobView at hexits ⊢
        rw [← openStatus_eq h.numbered, ← decide_mem_ite] at hexits
        dsimp only
        rw [hnone]
        exact hexits
    · cases hstep
  · cases hstep

end Children

/-! ## Cancel requests, and what the world does -/

section Requests

variable {cfg : LoopConfig} {s s' : TickState}

/-- A cancel request that has read a status decides by it, and so stays a request. -/
theorem isRequest_stepCancel (s : QueueState) (queueId : ℕ) (userId : String) :
    IsRequest (stepCancel s queueId userId) := by
  unfold stepCancel
  split
  · trivial
  · next row _ =>
    split
    · trivial
    · next target htarget => exact htarget

/-- A request that comes in, or has moved on without a write. -/
theorem TickInv.setRequests (h : TickInv cfg s) {requests : List Agent}
    (hrequests : ∀ a ∈ requests, IsRequest a) :
    TickInv cfg { s with requests := requests } :=
  { h with requests := hrequests }

/-- A cancel request writes in time. -/
theorem TickInv.cancelWrite (h : TickInv cfg s) {row : QueueRow} {userId : String}
    {target : QueueStatus} (htarget : cancelTarget row.queueStatus = some target)
    (htime : InTime s.shared.queue (.cancelWrite row userId target)) :
    TickInv cfg { s with shared := s.shared.write .api row target userId none } := by
  have hqueued : target ≠ .queued := by
    rintro rfl
    cases hs : row.queueStatus <;> rw [hs] at htarget <;> cases htarget
  refine { h with
    numbered := h.numbered.append rfl
    queuedFirst := List.pairwise_cons.mpr ⟨fun _ _ _ => hqueued, h.queuedFirst⟩
    jobs := fun pid p a hpa => ?_ }
  obtain ⟨hok, hchild⟩ := h.jobs pid p a hpa
  refine ⟨?_, hchild⟩
  by_cases hk : p.queueId = row.queueId
  · have hrows : versions (s.shared.write .api row target userId none).queue p.queueId = _ :=
      versions_cons_of_eq hk.symm
    unfold jobView at hok ⊢
    dsimp only
    rw [hrows]
    refine hok.cancel rfl ?_
    obtain ⟨status, hstatus, hclaimed⟩ := hok.claimed.status
    rw [InTime, openStatus_eq h.numbered, ← hk, hstatus, Option.some.injEq,
      Option.some.injEq] at htime
    dsimp only at hstatus ⊢
    cases hs : row.queueStatus with
    | queued =>
      rw [hs] at htarget htime
      cases htarget
      obtain rfl := htime.resolve_left hclaimed
      refine .inr ⟨rfl, ?_, by rw [hstatus]; decide⟩
      rw [Over, hstatus]
      rfl
    | running =>
      rw [hs] at htarget htime
      cases htarget
      refine .inl ⟨rfl, not_over_of_status hstatus ?_⟩
      rcases htime with rfl | rfl
      · rfl
      · rfl
    | cancelRequested => rw [hs] at htarget; cases htarget
    | completed => rw [hs] at htarget; cases htarget
    | failed => rw [hs] at htarget; cases htarget
    | cancelled => rw [hs] at htarget; cases htarget
  · exact hok.elsewhere (versions_write_of_ne hk) rfl Iff.rfl

/-- A request reads, or writes in time. -/
theorem stepRequest_inv (h : TickInv cfg s) {i : ℕ}
    (htime : ∀ a ∈ s.requests[i]?, InTime s.shared.queue a)
    (hstep : stepRequest cfg s i = some s') :
    TickInv cfg s' ∧ s.shared.queue <:+ s'.shared.queue := by
  unfold stepRequest at hstep
  split at hstep
  · cases hstep
  · next a ha =>
    have hreq := h.requests a (List.mem_of_getElem? ha)
    have hset {b : Agent} (hb : IsRequest b) : ∀ a ∈ s.requests.set i b, IsRequest a := by
      intro a' ha'
      rcases List.mem_or_eq_of_mem_set ha' with hmem | rfl
      · exact h.requests a' hmem
      · exact hb
    obtain ⟨r, hr, rfl⟩ := Option.map_eq_some_iff.mp hstep
    cases a with
    | cancel queueId userId =>
      cases hr
      exact ⟨h.setRequests (hset (isRequest_stepCancel _ _ _)), List.suffix_rfl⟩
    | cancelWrite row userId target =>
      cases hr
      exact ⟨(h.cancelWrite hreq (htime _ ha)).setRequests (hset trivial), List.suffix_cons _ _⟩
    | cancelDone => exact absurd hr nofun
    | loop _ _ => exact hreq.elim
    | child _ _ => exact hreq.elim
    | childRun _ _ => exact hreq.elim
    | childDone _ => exact hreq.elim

/-- A job that has a child has been submitted. -/
theorem TickInv.key_mem (h : TickInv cfg s) {pid : ℕ} {p : Proc} {a : Agent}
    (hpa : HasChild s pid p a) : ∃ r ∈ s.shared.queue, r.queueId = p.queueId := by
  have hlen := (h.jobs pid p a hpa).1.claimed.two_le_length
  obtain ⟨r, hr⟩ := List.exists_mem_of_length_pos (Nat.lt_of_lt_of_le Nat.two_pos hlen)
  exact ⟨r, mem_versions.mp hr⟩

/-- What the world does (time that passes, a job that is submitted) keeps the invariant and adds
to the table. -/
theorem stepWorld_inv (h : TickInv cfg s) {e : World} {shared : QueueState}
    (hstep : stepWorld s.shared e = some shared) :
    TickInv cfg { s with shared := shared } ∧ s.shared.queue <:+ shared.queue := by
  cases e with
  | tick d =>
    cases hstep
    exact ⟨{ h with }, List.suffix_rfl⟩
  | enqueue row =>
    simp only [stepWorld] at hstep
    split at hstep
    · cases hstep
    · next hfresh =>
      cases hstep
      have hnew : ∀ r ∈ s.shared.queue, r.queueId ≠ row.queueId := fun r hr hk =>
        hfresh (List.any_eq_true.mpr ⟨r, hr, decide_eq_true hk⟩)
      refine ⟨{ h with
        numbered := h.numbered.append rfl
        queuedFirst := List.pairwise_cons.mpr
          ⟨fun r hr hk => absurd hk.symm (hnew r hr), h.queuedFirst⟩
        jobs := fun pid p a hpa => ?_ }, List.suffix_cons _ _⟩
      obtain ⟨hok, hchild⟩ := h.jobs pid p a hpa
      obtain ⟨r, hr, hk⟩ := h.key_mem hpa
      exact ⟨hok.elsewhere (versions_write_of_ne (hk ▸ hnew r hr)) rfl Iff.rfl, hchild⟩

end Requests

/-! ## Claims -/

section Claims

variable {cfg : LoopConfig} {s : TickState}

theorem getElem?_concat {α : Type} {xs : List α} {i : ℕ} {y z : α}
    (h : (xs ++ [y])[i]? = some z) : (i < xs.length ∧ xs[i]? = some z) ∨ (i = xs.length ∧ y = z) := by
  rcases Nat.lt_trichotomy i xs.length with hlt | rfl | hgt
  · exact .inl ⟨hlt, (List.getElem?_append_left hlt).symm.trans h⟩
  · exact .inr ⟨rfl, Option.some.inj (List.getElem?_concat_length.symm.trans h)⟩
  · rw [List.getElem?_eq_none (by rw [List.length_append]; exact hgt)] at h
    cases h

/-- A queued job has no other version. -/
theorem versions_of_queued {queue : List QueueRow} {row : QueueRow} (hn : Numbered queue)
    (hq : QueuedFirst queue) (hrow : row ∈ listByStatus queue .queued) :
    versions queue row.queueId = [row] := by
  have hhead := head?_versions hn ((listByStatus_sublist queue .queued).mem hrow)
  have hpair : (versions queue row.queueId).Pairwise (fun later earlier =>
      later.queueId = earlier.queueId → later.queueStatus ≠ .queued) :=
    List.Pairwise.sublist List.filter_sublist hq
  obtain ⟨vs, hvs⟩ := List.head?_eq_some_iff.mp hhead
  rw [hvs] at hpair ⊢
  cases vs with
  | nil => rfl
  | cons v vs =>
    have hv : v ∈ versions queue row.queueId := hvs ▸ List.mem_cons_of_mem _ List.mem_cons_self
    exact absurd (listByStatus_status hrow)
      ((List.pairwise_cons.mp hpair).1 v List.mem_cons_self (mem_versions.mp hv).2.symm)

/-- A queued job has no child. -/
theorem TickInv.no_child (h : TickInv cfg s) {row : QueueRow}
    (hrow : row ∈ listByStatus s.shared.queue .queued) :
    row.queueId ∉ s.shared.procs.map Proc.queueId := by
  intro hmem
  obtain ⟨pid, hpid⟩ := List.mem_iff_getElem?.mp hmem
  rw [List.getElem?_map] at hpid
  obtain ⟨p, hp, hk⟩ := Option.map_eq_some_iff.mp hpid
  obtain ⟨a, hpa⟩ := h.proc hp
  have hlen : 2 ≤ (versions s.shared.queue p.queueId).length :=
    (h.jobs pid p a hpa).1.claimed.two_le_length
  rw [hk, versions_of_queued h.numbered h.queuedFirst hrow] at hlen
  exact absurd hlen (Nat.not_succ_le_self 1)

/-- A job is claimed, and its child has been started or has failed to. -/
theorem TickInv.claim (h : TickInv cfg s) {row : QueueRow} {exit : Option ℤ}
    {active : List Active} {phase : Phase}
    (hrow : row ∈ listByStatus s.shared.queue .queued) (hexit : exit ≠ some 0)
    (hactive : ∀ e ∈ active, e ∈ s.active ∨
      e.pid = s.shared.procs.length ∧ e.queueId = row.queueId ∧ e.row = row)
    (hapart : (active.map Active.queueId).Nodup)
    (htracks : ∀ k, k ≠ row.queueId → tracks active k = tracks s.active k)
    (htracked : tracks active row.queueId = true ∨ exit.isSome)
    (hslots : active.length ≤ cfg.maxConcurrent) :
    TickInv cfg { s with
      shared := { s.shared.write .loop row .running row.userId none with
        procs := s.shared.procs ++ [⟨row.queueId, false, exit⟩] }
      active := active
      phase := phase
      children := s.children ++ [.child s.shared.procs.length row.queueId] } := by
  have hno := h.no_child hrow
  have hkeys : (s.shared.procs ++ [Proc.mk row.queueId false exit]).map Proc.queueId =
      s.shared.procs.map Proc.queueId ++ [row.queueId] := List.map_append
  refine { h with
    numbered := h.numbered.append rfl
    queuedFirst := List.pairwise_cons.mpr ⟨fun _ _ _ => nofun, h.queuedFirst⟩
    aligned := ?_, apart := ?_, jobs := fun pid p a hpa => ?_, activeApart := hapart
    entries := fun e he => ?_, crashes := fun k hk => ?_, slots := hslots }
  · show (s.children ++ [_]).length = (s.shared.procs ++ [_]).length
    rw [List.length_append, List.length_append, h.aligned]
    rfl
  · show (List.map Proc.queueId (s.shared.procs ++ [_])).Nodup
    rw [hkeys]
    exact List.concat_eq_append ▸ h.apart.concat hno
  · rcases getElem?_concat hpa.1 with ⟨hlt, hp⟩ | ⟨hpid, rfl⟩
    -- the children that there were
    · rcases getElem?_concat hpa.2 with ⟨-, ha⟩ | ⟨hpid, -⟩
      · obtain ⟨hok, hchild⟩ := h.jobs pid p a ⟨hp, ha⟩
        have hk : p.queueId ≠ row.queueId := fun hk =>
          hno (hk ▸ List.mem_map_of_mem (List.mem_of_getElem? hp))
        exact ⟨hok.elsewhere (versions_write_of_ne hk) (htracks _ hk) Iff.rfl, hchild⟩
      · exact absurd (hpid.trans h.aligned) hlt.ne
    -- and the new one
    · rcases getElem?_concat hpa.2 with ⟨hlt, -⟩ | ⟨-, rfl⟩
      · exact absurd (hpid.trans h.aligned.symm) hlt.ne
      · refine ⟨?_, hpid.symm, rfl⟩
        unfold jobView
        have hrows : versions (s.shared.write .loop row .running row.userId none).queue
            row.queueId = _ := versions_cons_of_eq rfl
        have hcrashed : row.queueId ∉ s.crashed := fun hc => hno (h.crashes _ hc)
        rw [versions_of_queued h.numbered h.queuedFirst hrow] at hrows
        dsimp only
        rw [decide_eq_false hcrashed]
        exact hrows.symm ▸ JobOk.claim rfl (listByStatus_status hrow) ⟨_, _, rfl⟩ hexit htracked
  · show (List.map Proc.queueId (s.shared.procs ++ [_]))[e.pid]? = _ ∧ _
    rw [hkeys]
    rcases hactive e he with hmem | ⟨hpid, hk, rfl⟩
    · obtain ⟨hkey, hrowk⟩ := h.entries e hmem
      exact ⟨(List.getElem?_append_left (List.getElem?_eq_some_iff.mp hkey).1).trans hkey, hrowk⟩
    · refine ⟨?_, hk.symm⟩
      rw [hpid, hk, ← List.length_map Proc.queueId]
      exact List.getElem?_concat_length
  · show k ∈ List.map Proc.queueId (s.shared.procs ++ [_])
    rw [hkeys]
    exact List.mem_append_left _ (h.crashes k hk)

/-- What is claimed is queued. -/
theorem claimNext_eq_some {s s' : QueueState} {row : QueueRow}
    (h : claimNext s = some (row, s')) : row ∈ listByStatus s.queue .queued ∧
      s' = s.write .loop row .running row.userId none := by
  unfold claimNext at h
  split at h
  · cases h
  · next row' rows hrows =>
    cases h
    exact ⟨mem_inRunOrder.mp (hrows ▸ List.mem_cons_self), rfl⟩

/-- **Claiming keeps the invariant**: a queued job has no child yet, and gets one in the slot that
is free. -/
theorem stepClaim_inv (h : TickInv cfg s) (raises : Bool) :
    TickInv cfg (stepClaim cfg s raises) ∧
      s.shared.queue <:+ (stepClaim cfg s raises).shared.queue := by
  unfold stepClaim tryClaimAndSpawn
  split
  · next hroom =>
    cases hclaim : claimNext s.shared with
    | none => exact ⟨{ h with }, List.suffix_rfl⟩
    | some l =>
      obtain ⟨row, shared⟩ := l
      obtain ⟨hrow, rfl⟩ := claimNext_eq_some hclaim
      have hno : row.queueId ∉ s.active.map Active.queueId := fun hmem => by
        obtain ⟨e, he, hk⟩ := List.mem_map.mp hmem
        exact h.no_child hrow (hk ▸ List.mem_of_getElem? (h.entries e he).1)
      cases raises with
      | true =>
        exact ⟨h.claim hrow (by decide) (fun e he => .inl he) h.activeApart (fun _ _ => rfl)
          (.inr rfl) h.slots, List.suffix_cons _ _⟩
      | false =>
        have hset (e : Active) (he : e.queueId = row.queueId) :
            setActive s.active e = s.active ++ [e] :=
          if_neg fun hany => hno (he ▸ tracks_iff.mp hany)
        have hmap (e : Active) (he : e.queueId = row.queueId) : (s.active ++ [e]).map
            Active.queueId = s.active.map Active.queueId ++ [row.queueId] :=
          he ▸ List.map_append
        refine ⟨?_, List.suffix_cons _ _⟩
        dsimp only
        rw [if_neg Bool.false_ne_true]
        dsimp only
        rw [hset _ rfl]
        refine h.claim hrow nofun (fun e he => ?_) ?_ (fun k hk => ?_) (.inl ?_) ?_
        · rcases List.mem_append.mp he with he | he
          · exact .inl he
          · obtain rfl := List.mem_singleton.mp he
            exact .inr ⟨rfl, rfl, rfl⟩
        · rw [hmap _ rfl]
          exact List.concat_eq_append ▸ h.activeApart.concat hno
        · refine Bool.eq_iff_iff.mpr ?_
          rw [tracks_iff, tracks_iff, hmap _ rfl, List.mem_append, List.mem_singleton]
          exact or_iff_left hk
        · rw [tracks_iff, hmap _ rfl]
          exact List.mem_append_right _ (List.mem_singleton.mpr rfl)
        · rw [List.length_append]
          exact hroom
  · exact ⟨{ h with }, List.suffix_rfl⟩

end Claims

/-! ## Every run -/

section Runs

variable {cfg : LoopConfig} {s s' : TickState} {l : TickStep}

/-- **What a step keeps.** Where the steps of the cancel requests are in time, each step
keeps what holds between two steps, and what has been written. -/
theorem stepTick_inv (h : TickInv cfg s) (htime : CancelsInTime s l)
    (hstep : stepTick cfg s l = some s') :
    TickInv cfg s' ∧ s.shared.queue <:+ s'.shared.queue := by
  cases l with
  | reap =>
    obtain ⟨-, hs⟩ := Option.ite_none_right_eq_some.mp hstep
    cases hs
    exact ⟨(reapChildren_inv h).setPhase _, (extends_reapChildren _ _).queue⟩
  | cancels stuck =>
    obtain ⟨-, hs⟩ := Option.ite_none_right_eq_some.mp hstep
    cases hs
    exact ⟨(enforceCancels_spec h stuck).1.setPhase _, (extends_enforceCancels _ _ _).queue⟩
  | timeouts stuck =>
    obtain ⟨-, hs⟩ := Option.ite_none_right_eq_some.mp hstep
    cases hs
    exact ⟨(enforceTimeouts_spec h stuck).1.setPhase _, (extends_enforceTimeouts _ _ _ _).queue⟩
  | claim raises =>
    obtain ⟨-, hs⟩ := Option.ite_none_right_eq_some.mp hstep
    cases hs
    exact stepClaim_inv h raises
  | rest =>
    obtain ⟨-, hs⟩ := Option.ite_none_right_eq_some.mp hstep
    cases hs
    exact ⟨h.setPhase _, List.suffix_rfl⟩
  | begins pid =>
    obtain ⟨hinv, hqueue⟩ := begins_inv h hstep
    exact ⟨hinv, hqueue ▸ List.suffix_rfl⟩
  | finishes pid errorText => exact finishes_inv h hstep
  | exits pid code =>
    obtain ⟨hinv, hqueue⟩ := exits_inv h hstep
    exact ⟨hinv, hqueue ▸ List.suffix_rfl⟩
  | request queueId userId =>
    cases hstep
    refine ⟨h.setRequests fun a ha => ?_, List.suffix_rfl⟩
    rcases List.mem_append.mp ha with ha | ha
    · exact h.requests a ha
    · obtain rfl := List.mem_singleton.mp ha
      trivial
  | cancel i => exact stepRequest_inv h htime hstep
  | world e =>
    obtain ⟨shared, hshared, rfl⟩ := Option.map_eq_some_iff.mp hstep
    exact stepWorld_inv h hshared

/-- **The invariant of a sequence of ticks.** The induction is on the sequence of the steps of the
ticks and of the children between them. -/
theorem ticks_inv (hs : (ticks cfg).Reach CancelsInTime s) : TickInv cfg s := by
  refine hs.invariant (fun s hinit => ?_) fun s l s' h htime hstep => (stepTick_inv h htime hstep).1
  obtain ⟨hprocs, hactive, -, hchildren, hrequests, hcrashed, hnumbered, hqueued⟩ := hinit
  have hnone {α : Type} {x : α} {xs : List α} (hxs : xs = []) : x ∉ xs :=
    hxs ▸ List.not_mem_nil
  refine ⟨hnumbered, hqueued, by rw [hprocs, hchildren]; rfl, by rw [hprocs]; exact List.nodup_nil,
    fun pid p a hpa => absurd (List.mem_of_getElem? hpa.1) (hnone hprocs),
    by rw [hactive]; exact List.nodup_nil, fun e he => absurd he (hnone hactive),
    fun k hk => absurd hk (hnone hcrashed), fun a ha => absurd ha (hnone hrequests), ?_⟩
  rw [hactive]
  exact Nat.zero_le _

/-- Two children that live are of two jobs. -/
theorem TickInv.oneChild (h : TickInv cfg s) (queueId : ℕ) :
    s.shared.procs.countP (fun p => p.queueId = queueId && p.exit.isNone) ≤ 1 := by
  have hcount := List.nodup_iff_count_le_one.mp h.apart queueId
  rw [List.count, List.countP_map] at hcount
  refine (List.countP_mono_left fun p _ hp => ?_).trans hcount
  exact beq_iff_eq.mpr (of_decide_eq_true ((Bool.and_eq_true _ _).mp hp).1)

/-- What is promised of every state follows from it. -/
theorem TickInv.slotsAndEnds (h : TickInv cfg s) : SlotsAndEnds cfg s where
  slots := h.slots
  oneChild := h.oneChild
  once p hp := by
    obtain ⟨pid, hpid⟩ := List.mem_iff_getElem?.mp hp
    obtain ⟨a, hpa⟩ := h.proc hpid
    rw [loopEnds_eq]
    exact (h.jobs pid p a hpa).1.once
  exitedZero p hp hexit := by
    obtain ⟨pid, hpid⟩ := List.mem_iff_getElem?.mp hp
    obtain ⟨a, hpa⟩ := h.proc hpid
    rw [loopEnds_eq]
    exact ((h.jobs pid p a hpa).1.exitedZero hexit).1
  crashed queueId hcrashed := by
    obtain ⟨pid, p, a, hpa, rfl⟩ := h.crashedChild hcrashed
    rw [loopEnds_eq, openStatus_eq h.numbered]
    rcases ((h.jobs pid p a hpa).1.crash (decide_eq_true hcrashed)).2 with
      hone | ⟨htracked, -⟩ | hrequested
    · exact .inl hone
    · exact .inr (.inl htracked)
    · exact .inr (.inr hrequested)

/-- No job that had a child is ended twice by the loop. -/
theorem TickInv.loopEnds_le_one (h : TickInv cfg s) {queueId : ℕ}
    (hmem : queueId ∈ s.shared.procs.map Proc.queueId) : loopEnds s.shared.queue queueId ≤ 1 := by
  obtain ⟨p, hp, rfl⟩ := List.mem_map.mp hmem
  exact h.slotsAndEnds.once p hp

/-- What is due at a step is done once. -/
theorem endsDue (h : TickInv cfg s) (h' : TickInv cfg s') (hstep : stepTick cfg s l = some s') :
    EndsDue cfg s s' l := by
  cases l with
  | reap =>
    obtain ⟨-, hs⟩ := Option.ite_none_right_eq_some.mp hstep
    cases hs
    exact fun queueId hcrashed => reapChildren_due h hcrashed
  | cancels stuck =>
    obtain ⟨-, hs⟩ := Option.ite_none_right_eq_some.mp hstep
    cases hs
    rintro r hr ⟨p, hp, hk⟩
    have hkeys := (extends_enforceCancels stuck s.shared s.active).keys
    refine le_antisymm (h'.loopEnds_le_one ?_) ((enforceCancels_spec h stuck).2 r hr)
    exact hkeys.symm ▸ hk ▸ List.mem_map_of_mem hp
  | timeouts stuck =>
    obtain ⟨-, hs⟩ := Option.ite_none_right_eq_some.mp hstep
    cases hs
    intro e he halive hold
    have hkeys := (extends_enforceTimeouts cfg stuck s.shared s.active).keys
    refine le_antisymm (h'.loopEnds_le_one ?_) ((enforceTimeouts_spec h stuck).2 e he halive hold)
    exact hkeys.symm ▸ List.mem_of_getElem? (h.entries e he).1
  | claim raises => trivial
  | rest => trivial
  | begins pid => trivial
  | finishes pid errorText => trivial
  | exits pid code => trivial
  | request queueId userId => trivial
  | cancel i => trivial
  | world e => trivial

/-- **Slots and ends.** In every sequence of ticks, whatever the children do between their
steps, and as long as the cancel requests write in time, there are no more children than
slots and no two of one job, no job is ended twice, or when its child has exited with
zero, and each step ends the jobs that it is to end. -/
theorem ticks_slotsAndEnds (hs : (ticks cfg).Reach CancelsInTime s) :
    SlotsAndEnds cfg s ∧ ∀ l s', CancelsInTime s l → (ticks cfg).step s l = some s' →
      EndsDue cfg s s' l ∧
        ∀ queueId, loopEnds s.shared.queue queueId ≤ loopEnds s'.shared.queue queueId := by
  have h := ticks_inv hs
  refine ⟨h.slotsAndEnds, fun l s' htime hstep => ?_⟩
  obtain ⟨h', hsuffix⟩ := stepTick_inv h htime hstep
  exact ⟨endsDue h h' hstep, loopEnds_le hsuffix⟩

end Runs

/-! ## A run in time, and one that is not -/

/-- A loop that has not ticked. -/
def idle : TickState := ⟨⟨0, [], []⟩, [], .reap, [], [], []⟩

/-- A job is submitted, and the loop claims it and starts its child, which fetches it. -/
def atWork : List TickStep :=
  [.world (.enqueue submitted), .reap, .cancels [], .timeouts [], .claim false, .claim false,
    .begins 0]

/-- The child crashes, and is reaped. -/
def crashes : List TickStep := atWork ++ [.exits 0 (-11), .reap]

/-- A cancel request has read the running job when its child ends it and exits. -/
def cancelsLate : List TickStep :=
  atWork ++ [.request 0 "user", .cancel 0, .finishes 0 none, .exits 0 0, .cancel 0, .reap,
    .cancels []]

/-- A child that crashes, and the tick that ends its job. -/
theorem crashed_then_failed : ∃ s, (ticks defaultLoop).Reach CancelsInTime s ∧
    (s.crashed = [0] ∧ loopEnds s.shared.queue 0 = 1) ∧ SlotsAndEnds defaultLoop s := by
  obtain ⟨s, hs, hP⟩ := Machine.Reach.exists_of_runs (M := ticks defaultLoop)
    (G := CancelsInTime) (s := idle) ⟨rfl, rfl, rfl, rfl, rfl, rfl, .nil, .nil⟩ crashes
    (P := fun s => s.crashed = [0] ∧ loopEnds s.shared.queue 0 = 1) (by decide +kernel)
  exact ⟨s, hs, of_decide_eq_true hP, (ticks_slotsAndEnds hs).1⟩

/-- **A job whose child has exited with zero is ended by the loop.** The cancel request is written
after the child has ended the job and exited, and the loop, which honours it, ends the job once
more. -/
theorem exited_then_cancelled : ∃ s, (ticks defaultLoop).Reach (fun _ _ => True) s ∧
    s.shared.procs.map Proc.exit = [some 0] ∧ loopEnds s.shared.queue 0 = 1 ∧
    ¬ SlotsAndEnds defaultLoop s := by
  obtain ⟨s, hs, hP⟩ := Machine.Reach.exists_of_runs (M := ticks defaultLoop)
    (G := fun _ _ => True) (s := idle) ⟨rfl, rfl, rfl, rfl, rfl, rfl, .nil, .nil⟩ cancelsLate
    (P := fun s => s.shared.procs = [⟨0, true, some 0⟩] ∧ loopEnds s.shared.queue 0 = 1)
    (by decide +kernel)
  obtain ⟨hprocs, hends⟩ := of_decide_eq_true hP
  refine ⟨s, hs, by rw [hprocs]; rfl, hends, fun hok => ?_⟩
  have hzero := hok.exitedZero ⟨0, true, some 0⟩ (hprocs ▸ List.mem_singleton.mpr rfl) rfl
  exact absurd (hends.symm.trans hzero) Nat.one_ne_zero

end Queue
