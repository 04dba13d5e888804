import Libsbox.Ids.Workers
import Libsbox.Model.Cgroups
import Libsbox.Protocol.Rows
import Libsbox.Protocol.Verdicts

/-!
# libsbox — the containers that have cgroups

A container has its two cgroups while its worker waits for its answer. Where it dies
before it has removed them there is no answer, the worker stays where it is, and the id
stays with it. So nobody else comes to these groups.

## Results

* `Box.regroups_of_moves` — what a step of a container does with its groups, and when;
* `Engaged.turns`, `Engaged.moved` — a container that has not answered stays so until it does;
* `Launched.step` — behind the start barrier, a worker stays behind it;
* `Farm.Owned.engaged_unique` — two containers with one id have not both to answer.
-/

namespace Libsbox

open CMemory Runs

-- ---------------------------------------------------------------------------
-- Steps of a container
-- ---------------------------------------------------------------------------

/-- What a step from `b` to `b'` does with the groups of the container. -/
inductive Box.Regroups (b b' : Box) : Prop
  | idle (hOld : b.pc.HasCgroups = false) (hNew : b'.pc.HasCgroups = false)
      (hCall : b.cgroupCall b' = .leave ∨ b.cgroupCall b' = .quiet)
  | creates (hOld : b.pc = .createCgroups) (hNew : b' = { b with pc := .fork })
      (hCall : b.cgroupCall b' = .create b.block.task.memoryLimitKb)
  | enters (hOld : b.pc.HasCgroups = true) (hNew : b'.pc.HasCgroups = true)
      (hSlave : b.slave.map Slave.pc = some .setupRlimits) (hSlave' : b'.slave ≠ none)
      (hCall : b.cgroupCall b' = .enter)
  | leaves (hOld : b.pc.HasCgroups = true) (hNew : b'.pc.HasCgroups = true)
      (hCall : b.cgroupCall b' = .leave)
  | stays (hOld : b.pc.HasCgroups = true) (hNew : b'.pc.HasCgroups = true)
      (hSlave : b'.slave ≠ none) (hCall : b.cgroupCall b' = .quiet)
  | dies (hOld : b.pc.HasCgroups = true) (hNew : b'.pc = .died) (hCall : b.cgroupCall b' = .die)
  | killed (hOld : b.pc.HasCgroups = true) (hNew : b'.pc = .killed)
      (hCall : b.cgroupCall b' = .leave)
  | removes (hOld : b.pc = .umountBinds) (hNew : b'.pc = .resultsBarrier)
      (hCall : b.cgroupCall b' = .remove)

namespace Box

variable {pathEnv : Option Str} {s : Sys} {c : BoxId} {b b' : Box} {p : Option Party} {v : View}

/-- A container that has no groups and makes none touches none. -/
theorem Regroups.idle_call (h : b.Regroups b') (hOld : b.pc.HasCgroups = false)
    (hCreate : b.pc ≠ .createCgroups) : b.cgroupCall b' = .leave ∨ b.cgroupCall b' = .quiet := by
  cases h with
  | idle _ _ hCall => exact hCall
  | creates hPc => exact absurd hPc hCreate
  | enters hHas | leaves hHas | stays hHas | dies hHas | killed hHas =>
    rw [hOld] at hHas
    cases hHas
  | removes hPc =>
    rw [hPc] at hOld
    cases hOld

/-- A container that stays within the places where it has groups, or outside. -/
theorem regroups_of_same (hDied : b'.pc ≠ .died) (hKeeps : b'.pc.HasCgroups = b.pc.HasCgroups)
    (hEnter : b.slave.map Slave.pc = some .setupRlimits → b'.slave.map Slave.pc = some .addPath →
      b.pc.HasCgroups = true) : b.Regroups b' := by
  have hNotCreates : ¬ (b.pc = .createCgroups ∧ b'.pc = .fork) := by
    rintro ⟨hOld, hNew⟩
    simp [hOld, hNew, ContainerAt.HasCgroups] at hKeeps
  have hNotRemoves : ¬ (b.pc = .umountBinds ∧ b'.pc = .resultsBarrier) := by
    rintro ⟨hOld, hNew⟩
    simp [hOld, hNew, ContainerAt.HasCgroups] at hKeeps
  by_cases hSlave : b'.slave = none
  · have hCall : b.cgroupCall b' = .leave := by
      rw [cgroupCall, if_neg hDied, if_neg hNotCreates, if_neg hNotRemoves, if_pos hSlave]
    cases hOld : b.pc.HasCgroups with
    | false => exact .idle hOld (hKeeps.trans hOld) (.inl hCall)
    | true => exact .leaves hOld (hKeeps.trans hOld) hCall
  · by_cases hEnters : b.slave.map Slave.pc = some .setupRlimits ∧
        b'.slave.map Slave.pc = some .addPath
    · have hOld := hEnter hEnters.1 hEnters.2
      refine .enters hOld (hKeeps.trans hOld) hEnters.1 hSlave ?_
      rw [cgroupCall, if_neg hDied, if_neg hNotCreates, if_neg hNotRemoves, if_neg hSlave,
        if_pos hEnters]
    · have hCall : b.cgroupCall b' = .quiet := by
        rw [cgroupCall, if_neg hDied, if_neg hNotCreates, if_neg hNotRemoves, if_neg hSlave,
          if_neg hEnters]
      cases hOld : b.pc.HasCgroups with
      | false => exact .idle hOld (hKeeps.trans hOld) (.inr hCall)
      | true => exact .stays hOld (hKeeps.trans hOld) hSlave hCall

theorem regroups_of_died (hDied : b'.pc = .died) : b.Regroups b' := by
  cases hOld : b.pc.HasCgroups with
  | false =>
    refine .idle hOld (by rw [hDied]; rfl) (.inl ?_)
    rw [cgroupCall, if_pos hDied, hOld]
    rfl
  | true =>
    refine .dies hOld hDied ?_
    rw [cgroupCall, if_pos hDied, hOld]
    rfl

theorem regroups_of_killed (hKilled : b' = b.stop .killed) : b.Regroups b' := by
  have hCall : b.cgroupCall b' = .leave := by
    subst hKilled
    simp [cgroupCall, stop]
  cases hOld : b.pc.HasCgroups with
  | false => exact .idle hOld (by rw [hKilled]; rfl) (.inl hCall)
  | true => exact .killed hOld (by rw [hKilled]; rfl) hCall

/-- The places in which there is a slave are among those with groups. -/
theorem HasSlave.hasCgroups {sl : Slave} (h : b.HasSlave v) (hSome : b.slave = some sl) :
    b.pc.HasCgroups = true := by
  rcases h.pc_of_some hSome with hPc | hPc | hPc <;> rw [hPc] <;> rfl

theorem HasSlave.hasCgroups_of_enters (h : b.HasSlave v)
    (hEnters : b.slave.map Slave.pc = some .setupRlimits) : b.pc.HasCgroups = true := by
  obtain ⟨sl, hSome, -⟩ := Option.map_eq_some_iff.mp hEnters
  exact h.hasCgroups hSome

/-- **What a step of a container does with its groups.** -/
theorem regroups_of_moves (hSlave : b.HasSlave v) (hMoves : b.Moves pathEnv s c p b') :
    b.Regroups b' := by
  have hEnter : b.slave.map Slave.pc = some .setupRlimits →
      b'.slave.map Slave.pc = some .addPath → b.pc.HasCgroups = true :=
    fun hOld _ => hSlave.hasCgroups_of_enters hOld
  cases hMoves with
  | prepare hPc | disableIpcs hPc | taskBarrier hPc | awaitTask hPc | fork hPc | startBarrier hPc
  | awaitStart hPc | reap hPc | timeout hPc | readUsage _ hPc | resultsBarrier hPc =>
    exact regroups_of_same nofun (by rw [hPc]; rfl) hEnter
  | prepareRoot hPc | awaitResults hPc =>
    cases hPermanent : b.permanent <;>
      exact regroups_of_same (by simp) (by rw [hPc]; simp [ContainerAt.HasCgroups])
        (by simpa [hPermanent] using hEnter)
  | sigchldReturns hAlive => exact regroups_of_same hAlive.2.2.1 rfl hEnter
  | slaveArrives hSome | slaveStarts hSome | slaveGoesOn hSome | slaveExits status hSome
  | slaveFails hSome | slaveSetsError hSome | slaveDies hSome =>
    refine regroups_of_same ?_ rfl hEnter
    rcases hSlave.pc_of_some hSome with hPc | hPc | hPc <;> simp [slaveEnds, hPc]
  | goOn hPc =>
    generalize hOld : b.pc = pc at hPc
    cases hPc with
    | createCgroups =>
      refine .creates hOld rfl ?_
      simp [cgroupCall, hOld]
    | umountBinds =>
      refine .removes hOld rfl ?_
      simp [cgroupCall, hOld]
    | mountBinds | cleanupRoot | exit =>
      exact regroups_of_same nofun (by rw [hOld]; rfl) hEnter
  | slaveError | sigchldDies | fails => exact regroups_of_died rfl
  | parentDied => exact regroups_of_killed rfl

/-- A container with groups is between its two barriers. -/
theorem serving_of_hasCgroups (h : b.pc.HasCgroups = true) : b.Serving := by
  unfold Serving
  cases hPc : b.pc <;> simp_all [ContainerAt.HasCgroups]

/-- It stays in its run, and does not come to its barrier. -/
theorem Moves.run_eq (hMoves : b.Moves pathEnv s c p b') (hPc : b.pc.HasCgroups = true) :
    b'.serving = b.serving ∧ b'.barrier = b.barrier := by
  cases hMoves with
  | taskBarrier hAt | awaitTask hAt | resultsBarrier hAt =>
    rw [hAt] at hPc
    exact absurd hPc (by decide)
  | _ => exact ⟨rfl, rfl⟩

/-- What the worker does not change of a container that has not answered. -/
structure Still (b b' : Box) : Prop where
  id : b'.id = b.id
  pc : b'.pc = b.pc
  slave : b'.slave = b.slave
  serving : b'.serving = b.serving
  block : b'.block = b.block

theorem Still.refl (b : Box) : b.Still b := ⟨rfl, rfl, rfl, rfl, rfl⟩

attribute [local grind] View.Open Starting Running Unanswered in
/-- The worker sends a container that has not answered no task. -/
theorem Unanswered.still {k : Nat} {v' : View} (h : b.Unanswered v)
    (hTurns : View.Turns k v b v' b') : b.Still b' := by
  cases hTurns with
  | write => grind
  | call | ask => exact ⟨rfl, rfl, rfl, rfl, rfl⟩
  | same | answered | released | told => exact .refl b

end Box

namespace Sys

variable {pathEnv : Option Str} {s s' : Sys} {a : Act} {c c' : BoxId} {b : Box} {p : Option Party}
  {j : Nat}

-- ---------------------------------------------------------------------------
-- Containers that have to answer
-- ---------------------------------------------------------------------------

/-- The worker waits for the container with the task `j`, or is going to. -/
structure Engaged (s : Sys) (j : Nat) (c : BoxId) : Prop where
  used : s.containers[j]? = some c
  unanswered : (s.box c).Unanswered (s.view j)

theorem Engaged.view (h : s.Engaged j c) :
    s.view j = .called ∨ (∃ released, s.view j = .serving released) ∨ s.view j = .asked := by
  rcases h.unanswered with ⟨hOpen, -⟩ | ⟨hView, -⟩ | ⟨hView, -⟩
  · rcases hOpen with hView | hView
    · exact .inl hView
    · exact .inr (.inl ⟨_, hView⟩)
  · exact .inr (.inl ⟨_, hView⟩)
  · exact .inr (.inr hView)

theorem Engaged.ne_accept (h : s.Engaged j c) : s.worker ≠ .accept := by
  intro hWorker
  have hView := h.view
  simp [Sys.view, WorkerAt.view, hWorker] at hView

/-- The worker has not put its id back. -/
theorem Engaged.mem_unreturned (h : s.Engaged j c) (hInv : s.Inv) : c ∈ s.unreturned := by
  have hReturned : s.worker.returned = 0 := by
    have hView := h.view
    cases hWorker : s.worker with
    | putId i | waitpid i => simp [Sys.view, WorkerAt.view, hWorker] at hView
    | _ => rfl
  rw [unreturned, hReturned, List.drop_zero]
  exact hInv.roster.within c (List.mem_of_getElem? h.used)

/-- A container between its two barriers has to answer. -/
theorem engaged_of_serving (hInv : s.Inv) (hServing : (s.box c).Serving) : ∃ j, s.Engaged j c := by
  obtain ⟨v, hSees⟩ := s.sees_total s.view c
  have hFits := hInv.boxes c v hSees
  have hUnanswered : (s.box c).Unanswered v := hFits.seated.of_serving hServing
  have hNot : v ≠ .free false ∧ v ≠ .gone ∧ v ≠ .unborn := by
    rcases hUnanswered with ⟨hOpen, -⟩ | ⟨hView, -⟩ | ⟨hView, -⟩
    · rcases hOpen with hView | hView <;> simp [hView]
    · simp [hView]
    · simp [hView]
  cases hSees with
  | used hUsed => exact ⟨_, hUsed, hUnanswered⟩
  | spare => exact absurd rfl hNot.1
  | gone => exact absurd rfl hNot.2.1
  | unborn => exact absurd rfl hNot.2.2

theorem Engaged.workerMoves_kept (h : s.Engaged j c) (hMoves : s.WorkerMoves s') :
    s'.containers = s.containers := by
  have hView := h.view
  cases hMoves with
  | reuses hWorker | startsPermanent hWorker | startsTemporary hWorker | answers hWorker =>
    simp [Sys.view, WorkerAt.view, hWorker] at hView
  | _ => rfl

/-- **A step of the worker leaves it so**, and changes nothing of its run. -/
theorem Engaged.turns (h : s.Engaged j c) (hInv : s.Inv) (hTurns : s.Turns a s') :
    s'.Engaged j c ∧ (s.box c).Still (s'.box c) := by
  cases hTurns with
  | accepts _ hWorker => exact absurd hWorker h.ne_accept
  | worker _ hMoves =>
    have hUsed : s'.containers[j]? = some c := h.workerMoves_kept hMoves ▸ h.used
    have hView := hMoves.turns hInv h.used hUsed
    have hCount := (hInv.boxes c _ (.used h.used)).count
    exact ⟨⟨hUsed, h.unanswered.turns hCount hView⟩, h.unanswered.still hView⟩
  | dies | othersGet | othersPut => exact ⟨⟨h.used, h.unanswered⟩, .refl _⟩

theorem unanswered_congr {v : View} {b b' : Box} (h : b.Unanswered v)
    (hBarrier : b'.barrier = b.barrier) : b'.Unanswered v := by
  simpa only [Box.Unanswered, Box.Starting, Box.Running, hBarrier] using h

/-- **A move leaves it so**, unless it is the answer. -/
theorem Engaged.moved (h : s.Engaged j c) (hInv : s.Inv)
    (hMoves : (s.box c').Moves pathEnv s c' p b)
    (hSilent : c' = c → b.barrier = (s.box c).barrier) : (s.moveBox c' p b).Engaged j c := by
  have hNew : ((s.moveBox c' p b).box c).Unanswered (s.view j) := by
    rcases eq_or_ne c c' with rfl | hNe
    · have hEq : (s.moveBox c p b).box c = b := setBox_box_self ..
      exact unanswered_congr h.unanswered (by rw [hEq]; exact hSilent rfl)
    · have hEq : (s.moveBox c' p b).box c = s.box c := setBox_box_ne s b hNe
      exact hEq ▸ h.unanswered
  refine ⟨h.used, ?_⟩
  rcases moveBox_view hMoves with hView | ⟨hHeld, hView⟩
  · rw [hView]
    exact hNew
  · -- the start barrier lets go
    rw [hHeld] at hNew
    rw [hView]
    have hFits := (hInv.moved ⟨p, b, hMoves, rfl⟩).boxes c _ (.used h.used)
    exact hNew.turns (k := s.request) hFits.count .released

-- ---------------------------------------------------------------------------
-- Workers behind the start barrier
-- ---------------------------------------------------------------------------

/-- The start barrier has let go in this request. -/
def Launched (s : Sys) : Prop := ∀ j, (s.view j).Behind

/-- So it has where a container runs. -/
theorem launched_of_running (h : (s.box c).Running (s.view j)) : s.Launched := by
  have hView : s.view j = .serving true ∨ s.view j = .asked := by
    rcases h with ⟨hView, -⟩ | ⟨hView, -⟩
    · exact .inl hView
    · exact .inr hView
  intro i
  unfold Sys.view View.Behind at *
  cases hWorker : s.worker <;> simp only [hWorker, WorkerAt.view] at hView ⊢ <;> grind

theorem Launched.ne_accept (h : s.Launched) : s.worker ≠ .accept := by
  intro hWorker
  have hView := h 0
  simp [Sys.view, WorkerAt.view, View.Behind, hWorker] at hView

/-- The places of a worker behind the start barrier. -/
theorem launched_iff : s.Launched ↔ s.worker = .awaitStart ∧ s.released = true ∨
    s.worker = .closePipes ∨ (∃ i, s.worker = .resultsBarrier i) ∨ (∃ i, s.worker = .awaitResults i) ∨
      (∃ i, s.worker = .putResults i) ∨ (∃ i, s.worker = .putId i) ∨ ∃ i, s.worker = .waitpid i := by
  unfold Launched Sys.view
  constructor
  · intro h
    cases hWorker : s.worker with
    | writeTasks i | taskBarrier i | awaitTask i =>
      have hNot : ¬ i + 1 < i := by omega
      have hView := h (i + 1)
      simp [WorkerAt.view, View.Behind, hWorker, hNot] at hView
    | accept | prepareContainers | startContainer | resetBarrier | startBarrier =>
      have hView := h 0
      simp [WorkerAt.view, View.Behind, hWorker] at hView
    | awaitStart =>
      have hView := h 0
      simpa [WorkerAt.view, View.Behind, hWorker] using hView
    | _ => simp
  · intro h j
    rcases h with ⟨hWorker, hReleased⟩ | hWorker | ⟨i, hWorker⟩ | ⟨i, hWorker⟩ | ⟨i, hWorker⟩ |
        ⟨i, hWorker⟩ | ⟨i, hWorker⟩ <;>
      simp only [hWorker, WorkerAt.view, View.Behind] <;> grind

/-- **A worker behind the start barrier stays behind it** up to its response. -/
theorem Launched.turns (h : s.Launched) (hTurns : s.Turns a s') :
    s'.request = s.request ∧ (s'.Launched ∨ s'.worker = .accept) := by
  cases hTurns with
  | accepts _ hWorker => exact absurd hWorker h.ne_accept
  | worker _ hMoves =>
    refine ⟨hMoves.request_eq, ?_⟩
    rw [launched_iff] at h ⊢
    cases hMoves with
    | dies => exact .inl h
    | goesOn hGoesOn =>
      generalize hWorker : s.worker = w at hGoesOn
      rw [hWorker] at h
      cases hGoesOn <;> simp at h ⊢
    | answers => exact .inr rfl
    | reuses hWorker | getsId hWorker | startsPermanent hWorker | startsTemporary hWorker
    | resets hWorker | writes hWorker | calls hWorker | arrives hWorker | asks hWorker
    | puts hWorker | putsId hWorker =>
      rw [hWorker] at h
      simp at h ⊢
  | dies | othersGet | othersPut => exact ⟨rfl, .inl h⟩

theorem Launched.moved (h : s.Launched) (hMoves : (s.box c).Moves pathEnv s c p b) :
    (s.moveBox c p b).Launched := by
  intro j
  rcases moveBox_view hMoves with hView | ⟨-, hView⟩
  · rw [hView]
    exact h j
  · rw [hView]
    exact .inl rfl

/-- The start barrier has let go in the request `r`. -/
def Past (s : Sys) (r : Nat) : Prop :=
  r ≤ s.request ∧ (r = s.request → s.Launched ∨ s.worker = .accept)

/-- **What is behind the start barrier stays behind it.** -/
theorem Past.turns {r : Nat} (h : s.Past r) (hTurns : s.Turns a s') : s'.Past r := by
  obtain ⟨hLe, hNow⟩ := h
  cases hTurns with
  | accepts => exact ⟨Nat.le_succ_of_le hLe, fun hEq => absurd hEq (by simp; omega)⟩
  | worker hAlive hMoves =>
    refine ⟨hMoves.request_eq.symm ▸ hLe, fun hEq => ?_⟩
    rw [hMoves.request_eq] at hEq
    rcases hNow hEq with hLaunched | hWorker
    · exact (hLaunched.turns (.worker hAlive hMoves)).2
    · -- where the worker waits for a request it makes no step but the last
      cases hMoves with
      | dies => exact .inr hWorker
      | goesOn hGoesOn =>
        rw [hWorker] at hGoesOn
        cases hGoesOn
      | _ => simp_all
  | dies | othersGet | othersPut => exact ⟨hLe, hNow⟩

theorem Past.moved {r : Nat} (h : s.Past r) (hMoves : (s.box c).Moves pathEnv s c p b) :
    (s.moveBox c p b).Past r :=
  ⟨h.1, fun hEq => (h.2 hEq).imp_left fun hLaunched => hLaunched.moved hMoves⟩

/-- No container runs in a request whose start barrier has not let go. -/
theorem Past.not_starting {r : Nat} (h : s.Past r) (hUsed : s.containers[j]? = some c)
    (hStarting : (s.box c).Starting (s.view j)) : r < s.request := by
  refine lt_of_le_of_ne h.1 fun hEq => ?_
  rcases h.2 hEq with hLaunched | hWorker
  · have hBehind := hLaunched j
    rcases hStarting.1 with hView | hView <;> simp [hView, View.Behind] at hBehind
  · exact absurd hWorker (Engaged.ne_accept ⟨hUsed, .inl hStarting⟩)

end Sys

namespace Farm

variable {n : Nat} {pathEnv : Option Str} {f : Farm n}

/-- The container has to answer its worker. -/
def Engaged (f : Farm n) (who : Owner n) : Prop := ∃ j, (f.worker who.1).Engaged j who.2

/-- **Two containers that have to answer have distinct ids.** -/
theorem Owned.engaged_unique (h : f.Owned) (hInv : ∀ w, ∃ ids, (f.among w ids).Inv)
    {who who' : Owner n} (hEngaged : f.Engaged who) (hEngaged' : f.Engaged who')
    (hSame : f.uid who.1 who.2 = f.uid who'.1 who'.2) : who = who' := by
  obtain ⟨w, c⟩ := who
  obtain ⟨w', c'⟩ := who'
  have hHeld : ∀ w c, f.Engaged (w, c) → c ∈ (f.worker w).unreturned := by
    rintro w c ⟨j, hUsed, hUnanswered⟩
    obtain ⟨ids, hInv⟩ := hInv w
    have hAmong : (f.among w ids).Engaged j c := ⟨hUsed, hUnanswered⟩
    exact hAmong.mem_unreturned hInv
  have hIn : ∀ w c, f.Engaged (w, c) → f.uid w c ∈ (f.worker w).held := fun w c hEngaged =>
    List.mem_append_left _ (List.mem_map_of_mem (hHeld w c hEngaged))
  rcases eq_or_ne w w' with rfl | hNe
  · have hNodup : ((f.worker w).unreturned.map fun c => ((f.worker w).box c).id).Nodup :=
      (h.apart.held_nodup w).of_append_left
    have hEq : c = c' := List.inj_on_of_nodup_map hNodup (hHeld w c hEngaged) (hHeld w c' hEngaged') hSame
    rw [hEq]
  · have hOther := hIn w' c' hEngaged'
    rw [← hSame] at hOther
    exact absurd hOther (h.apart.apart w w' hNe (hIn w c hEngaged))

-- ---------------------------------------------------------------------------
-- Steps of a farm
-- ---------------------------------------------------------------------------

variable {f' : Farm n} {w : Fin n} {a : Act} {c : BoxId} {firstUid : Uid}

theorem owned_of_reachable (hReach : Reachable (step pathEnv) (initial n firstUid) f) : f.Owned :=
  invariant_of_reachable (fun _ _ _ h hStep => h.step hStep) (owned_initial n firstUid) hReach

theorem inv_of_reachable (hReach : Reachable (step pathEnv) (initial n firstUid) f) (w : Fin n) :
    ∃ ids, (f.among w ids).Inv := by
  obtain ⟨ids, -, hAlone⟩ := reachable_among hReach w
  exact ⟨ids, Sys.inv_of_reachable hAlone⟩

theorem own_of_box (hBox : a.box? = some c) : Own a := by
  constructor
  · rintro rfl
    cases hBox
  · rintro id rfl
    cases hBox

theorem step_of_see {s : Sys} (hOwn : Own a) (h : (f.see w).step pathEnv a = some s) :
    ∃ f', f.step pathEnv (w, a) = some f' ∧ f'.worker w = s :=
  ⟨_, by rw [step, if_pos hOwn, h, Option.map_some], Function.update_self ..⟩

/-- A step of a farm is one of a worker in a reachable state of its own. -/
theorem step_among (hReach : Reachable (step pathEnv) (initial n firstUid) f)
    (hStep : f.step pathEnv (w, a) = some f') :
    ∃ ids, (f.among w ids).Inv ∧ (f.among w ids).step pathEnv a = some (f'.among w ids) ∧
      ∀ v, v ≠ w → f'.worker v = f.worker v := by
  obtain ⟨ids, hElsewhere, hAlone⟩ := reachable_among hReach w
  obtain ⟨s, -, -, -, -, hOthers⟩ := step_worker hStep
  exact ⟨ids, Sys.inv_of_reachable hAlone, (hElsewhere.own hStep).2, hOthers⟩

/-- The record of a container. -/
def box (f : Farm n) (who : Owner n) : Box := (f.worker who.1).box who.2

/-- A container between its two barriers has to answer. -/
theorem engaged_of_serving (hReach : Reachable (step pathEnv) (initial n firstUid) f)
    {who : Owner n} (hServing : (f.box who).Serving) : f.Engaged who := by
  obtain ⟨ids, hInv⟩ := inv_of_reachable hReach who.1
  obtain ⟨j, hEngaged⟩ := Sys.engaged_of_serving (c := who.2) hInv hServing
  exact ⟨j, hEngaged.used, hEngaged.unanswered⟩

/-- What a step that belongs to no container leaves as it is. -/
structure Turned (f f' : Farm n) : Prop where
  engaged : ∀ who, f.Engaged who → f'.Engaged who ∧ (f.box who).Still (f'.box who)
  hasCgroups : ∀ who, (f'.box who).pc.HasCgroups = true → (f.box who).pc.HasCgroups = true
  past : ∀ w r, (f.worker w).Past r → (f'.worker w).Past r
  launched : ∀ w, (f.worker w).Launched → (f'.worker w).Launched ∨ (f'.worker w).worker = .accept

theorem turned_of_step (hReach : Reachable (step pathEnv) (initial n firstUid) f)
    (hBox : a.box? = none) (hStep : f.step pathEnv (w, a) = some f') : f.Turned f' := by
  obtain ⟨ids, hInv, hOwn, hOthers⟩ := step_among hReach hStep
  have hTurns := Sys.step_turns hBox hOwn
  constructor
  · rintro ⟨v, c⟩ ⟨j, hUsed, hUnanswered⟩
    rcases eq_or_ne v w with rfl | hNe
    · have hEngaged : (f.among v ids).Engaged j c := ⟨hUsed, hUnanswered⟩
      obtain ⟨hNew, hStill⟩ := hEngaged.turns hInv hTurns
      exact ⟨⟨j, hNew.used, hNew.unanswered⟩, hStill⟩
    · have hSame : f'.worker v = f.worker v := hOthers v hNe
      refine ⟨⟨j, ?_⟩, ?_⟩
      · rw [hSame]
        exact ⟨hUsed, hUnanswered⟩
      · rw [box, box, hSame]
        exact .refl _
  · rintro ⟨v, c⟩ hPc
    rcases eq_or_ne v w with rfl | hNe
    · have hWorked : (f.box (v, c)).Worked (f.among v ids) c (f'.box (v, c)) := hTurns.worked c
      generalize f'.box (v, c) = b' at hWorked hPc
      cases hWorked with
      | started => exact absurd hPc Bool.false_ne_true
      | _ => exact hPc
    · rwa [box, hOthers v hNe] at hPc
  · intro v r hPast
    rcases eq_or_ne v w with rfl | hNe
    · have hOld : (f.among v ids).Past r := hPast
      have hNew := hOld.turns hTurns
      exact hNew
    · rwa [hOthers v hNe]
  · intro v hLaunched
    rcases eq_or_ne v w with rfl | hNe
    · have hOld : (f.among v ids).Launched := hLaunched
      have hNew := (hOld.turns hTurns).2
      exact hNew
    · rw [hOthers v hNe]
      exact .inl hLaunched

/-- What a step of the container `who` does, and what it leaves as it is. -/
structure Moved (f f' : Farm n) (who : Owner n) : Prop where
  regroups : (f.box who).Regroups (f'.box who)
  id : (f'.box who).id = (f.box who).id
  run : (f.box who).pc.HasCgroups = true → (f'.box who).serving = (f.box who).serving
  parameters : (f'.box who).block.task.parameters = (f.box who).block.task.parameters
  ended : (f.box who).Ended → f'.box who = f.box who
  others : ∀ who', who' ≠ who → f'.box who' = f.box who'
  engaged : ∀ who', f.Engaged who' → (who' = who → (f.box who).pc.HasCgroups = true ∨
    (f.box who).Ended) → f'.Engaged who'
  past : ∀ w r, (f.worker w).Past r → (f'.worker w).Past r
  launched : ∀ w, (f.worker w).Launched → (f'.worker w).Launched

theorem regroups_refl {v : View} {b : Box} (hSlave : b.HasSlave v) : b.Regroups b := by
  by_cases hDied : b.pc = .died
  · exact Box.regroups_of_died hDied
  · exact Box.regroups_of_same hDied rfl fun hOld _ => hSlave.hasCgroups_of_enters hOld

theorem moved_of_step (hReach : Reachable (step pathEnv) (initial n firstUid) f)
    (hBox : a.box? = some c) (hStep : f.step pathEnv (w, a) = some f') : f.Moved f' (w, c) := by
  obtain ⟨ids, hInv, hOwn, hOthers⟩ := step_among hReach hStep
  obtain ⟨v, hSees⟩ := (f.among w ids).sees_total (f.among w ids).view c
  have hSlave := (hInv.boxes c v hSees).slave
  rcases Sys.step_of_box hBox hOwn with hSame | ⟨p, b, hMoves, hNew⟩
  · -- a tick that changes nothing
    have hWorker : ∀ u, (f'.worker u).containers = (f.worker u).containers ∧
        (f'.worker u).box = (f.worker u).box ∧ (f'.worker u).view = (f.worker u).view ∧
        (f'.worker u).request = (f.worker u).request ∧ (f'.worker u).worker = (f.worker u).worker := by
      intro u
      rcases eq_or_ne u w with rfl | hNe
      · have hContainers := congrArg Sys.containers hSame
        have hBoxes := congrArg Sys.box hSame
        have hView := congrArg Sys.view hSame
        have hRequest := congrArg Sys.request hSame
        have hPlace := congrArg Sys.worker hSame
        exact ⟨hContainers, hBoxes, hView, hRequest, hPlace⟩
      · rw [hOthers u hNe]
        exact ⟨rfl, rfl, rfl, rfl, rfl⟩
    have hBoxes : ∀ who, f'.box who = f.box who := fun who => congrFun (hWorker who.1).2.1 who.2
    refine ⟨?_, ?_, ?_, ?_, fun _ => hBoxes _, fun who' _ => hBoxes who', ?_, ?_, ?_⟩
    · rw [hBoxes]
      exact regroups_refl hSlave
    · rw [hBoxes]
    · rw [hBoxes]
      exact fun _ => rfl
    · rw [hBoxes]
    · rintro who' ⟨j, hUsed, hUnanswered⟩ -
      obtain ⟨hContainers, hBox, hView, -, -⟩ := hWorker who'.1
      exact ⟨j, hContainers ▸ hUsed, by rw [hBox, hView]; exact hUnanswered⟩
    · rintro u r ⟨hLe, hNow⟩
      obtain ⟨-, -, hView, hRequest, hPlace⟩ := hWorker u
      refine ⟨hRequest ▸ hLe, fun hEq => ?_⟩
      rw [hPlace, Sys.Launched, hView]
      exact hNow (hEq.trans hRequest)
    · intro u hLaunched
      rw [Sys.Launched, (hWorker u).2.2.1]
      exact hLaunched
  · have hBoxNew : f'.box (w, c) = b := by
      have hEq : (f'.among w ids).box c = ((f.among w ids).moveBox c p b).box c := by rw [hNew]
      exact hEq.trans (Sys.setBox_box_self ..)
    have hMoves' : (f.box (w, c)).Moves pathEnv (f.among w ids) c p (f'.box (w, c)) := hBoxNew ▸ hMoves
    refine ⟨Box.regroups_of_moves hSlave hMoves', hMoves'.id_eq, fun hPc => (hMoves'.run_eq hPc).1,
      hMoves'.parameters_eq, fun hEnded => absurd hEnded (hMoves'.not_ended hSlave), ?_, ?_, ?_, ?_⟩
    · rintro ⟨u, d⟩ hNe
      rcases eq_or_ne u w with rfl | hWorkers
      · have hBoxes : d ≠ c := fun hEq => hNe (by rw [hEq])
        have hEq : (f'.among u ids).box d = ((f.among u ids).moveBox c p b).box d := by rw [hNew]
        exact hEq.trans (Sys.setBox_box_ne _ b hBoxes)
      · rw [box, box, hOthers u hWorkers]
    · rintro ⟨u, d⟩ ⟨j, hUsed, hUnanswered⟩ hSilent
      rcases eq_or_ne u w with rfl | hWorkers
      · have hEngaged : (f.among u ids).Engaged j d := ⟨hUsed, hUnanswered⟩
        have hKept := hEngaged.moved hInv hMoves fun hEq => by
          subst hEq
          rcases hSilent rfl with hPc | hEnded
          · exact (hMoves.run_eq hPc).2
          · exact absurd hEnded (hMoves.not_ended hSlave)
        rw [← hNew] at hKept
        exact ⟨j, hKept.used, hKept.unanswered⟩
      · refine ⟨j, ?_⟩
        rw [hOthers u hWorkers]
        exact ⟨hUsed, hUnanswered⟩
    · intro u r hPast
      rcases eq_or_ne u w with rfl | hWorkers
      · have hOld : (f.among u ids).Past r := hPast
        have hKept := hOld.moved hMoves
        rw [← hNew] at hKept
        exact hKept
      · rwa [hOthers u hWorkers]
    · intro u hLaunched
      rcases eq_or_ne u w with rfl | hWorkers
      · have hOld : (f.among u ids).Launched := hLaunched
        have hKept := hOld.moved hMoves
        rw [← hNew] at hKept
        exact hKept
      · rwa [hOthers u hWorkers]

end Farm

end Libsbox
