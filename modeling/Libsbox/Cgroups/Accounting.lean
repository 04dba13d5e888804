import Libsbox.Cgroups.Holders
import Libsbox.Cgroups.Readings
import Libsbox.Protocol.Deaths
import Libsbox.Protocol.StartBarrier

/-!
# libsbox — what a run is charged

Each run of a container has a cgroup of its own for each controller: nobody else is in
it, it is charged with what the processes of this run do and nothing else, and what the
container reads out of it at the end are the sums of these charges. This holds although
ids are used again, and although a worker puts an id back before it has waited for the
container: the groups are removed before the container answers, and the id comes back
after that.

## Results

* `Machine.Inv.step`, `Machine.inv_of_reachable` — whose groups there are, whatever happens;
* `Machine.accounted_of_reachable` — every run has groups of its own;
* `Machine.usage_of_reachable`, `Machine.tick_of_reachable` — what is read out of them.
-/

namespace Libsbox

open CMemory Runs

namespace Machine

variable {n : Nat} {pathEnv : Option Str} {reads : Chunks} {firstUid : Uid}
  {m m' : Machine n} {f : Farm n} {who who' : Owner n} {w : Fin n} {c : BoxId} {a : Act}
  {ctl : Controller} {id : Uid} {g : Cgroup n} {dirs : Cgroups n}

-- ---------------------------------------------------------------------------
-- The invariant
-- ---------------------------------------------------------------------------

/-- What the processes of a container have been charged in its run, by one controller. -/
def spentOn (m : Machine n) (ctl : Controller) (who : Owner n) : List Charge :=
  (m.log.filter fun e => e.who = who ∧ e.request = (m.box who).serving ∧
    e.charge.controller = ctl).map Entry.charge

/-- The container has groups, or has ended before it has answered. -/
def Holds (m : Machine n) (who : Owner n) : Prop :=
  ((m.box who).pc.HasCgroups = true ∨ (m.box who).pc = .died ∨ (m.box who).pc = .killed) ∧
    m.farm.Engaged who

/-- `g` is the group of the container, and of nobody else. -/
structure Kept (m : Machine n) (ctl : Controller) (who : Owner n) (g : Cgroup n) : Prop where
  tasks : ∀ t ∈ g.tasks,
    t = who ∧ (m.box who).slave ≠ none ∧ (m.farm.worker who.1).Launched
  charged : (m.box who).pc.HasCgroups = true → g.charged = m.spentOn ctl who
  limit : ctl = .memory → (m.box who).pc.HasCgroups = true →
    g.limit = limitInBytes (m.box who).block.task.memoryLimitKb

/-- **The invariant.** -/
structure Inv (pathEnv : Option Str) (firstUid : Uid) (m : Machine n) : Prop where
  farm : Reachable (Farm.step pathEnv) (Farm.initial n firstUid) m.farm
  kept : ∀ ctl id g, m.dirs ctl id = some g →
    ∃ who, m.Holds who ∧ (m.box who).id = id ∧ m.Kept ctl who g
  has : ∀ ctl who, (m.box who).pc.HasCgroups = true → ∃ g, m.group ctl who = some g
  log : ∀ e ∈ m.log, (m.farm.worker e.who.1).Past e.request

theorem inv_initial (n : Nat) (firstUid : Uid) : (initial n firstUid).Inv pathEnv firstUid where
  farm := ⟨[], rfl⟩
  kept _ _ _ hDir := absurd hDir (Option.some_ne_none _).symm
  has _ _ hPc := absurd hPc Bool.false_ne_true
  log _ hMem := absurd hMem List.not_mem_nil

/-- A container with groups has to answer. -/
theorem Inv.engaged (h : m.Inv pathEnv firstUid) (hPc : (m.box who).pc.HasCgroups = true) :
    m.farm.Engaged who :=
  Farm.engaged_of_serving h.farm (Box.serving_of_hasCgroups hPc)

/-- Containers that have to answer do not share groups. -/
theorem Inv.unique (h : m.Inv pathEnv firstUid) (hEngaged : m.farm.Engaged who)
    (hEngaged' : m.farm.Engaged who') (hSame : (m.box who).id = (m.box who').id) : who = who' :=
  (Farm.owned_of_reachable h.farm).engaged_unique (Farm.inv_of_reachable h.farm) hEngaged hEngaged'
    hSame

/-- A group with the id of a container that has to answer is the one of this container. -/
theorem Inv.owner (h : m.Inv pathEnv firstUid) (hEngaged : m.farm.Engaged who)
    (hGroup : m.group ctl who = some g) : m.Holds who ∧ m.Kept ctl who g := by
  obtain ⟨who', hHolds, hSame, hKept⟩ := h.kept ctl _ g hGroup
  obtain rfl := h.unique hHolds.2 hEngaged hSame
  exact ⟨hHolds, hKept⟩

/-- A container that is about to make its groups finds none. -/
theorem Inv.fresh (h : m.Inv pathEnv firstUid) (hPc : (m.box who).pc = .createCgroups)
    (ctl : Controller) : m.group ctl who = none := by
  have hEngaged : m.farm.Engaged who :=
    Farm.engaged_of_serving h.farm (.inr (.inl hPc))
  cases hGroup : m.group ctl who with
  | none => rfl
  | some g =>
    have hHolds := (h.owner hEngaged hGroup).1.1
    rw [hPc] at hHolds
    simp [ContainerAt.HasCgroups] at hHolds

/-- It has not been charged anything in its run. -/
theorem Inv.unspent (h : m.Inv pathEnv firstUid) (hPc : (m.box who).pc = .createCgroups)
    (ctl : Controller) : m.spentOn ctl who = [] := by
  obtain ⟨ids, hInv⟩ := Farm.inv_of_reachable h.farm who.1
  have hServing : (m.box who).Serving := .inr (.inl hPc)
  obtain ⟨j, hUsed, hUnanswered⟩ := Farm.engaged_of_serving h.farm hServing
  have hFits := hInv.boxes who.2 _ (.used hUsed)
  have hStarting : (m.box who).Starting ((m.farm.among who.1 ids).view j) := by
    have hSeated := hFits.seated
    change (m.box who).Seated _ at hSeated
    rwa [Box.Seated, hPc] at hSeated
  have hRequest : (m.box who).serving = (m.farm.worker who.1).request := hFits.serving hServing
  rw [spentOn, List.map_eq_nil_iff, List.filter_eq_nil_iff]
  intro e hMem hRun
  obtain ⟨rfl, hNow, -⟩ := of_decide_eq_true hRun
  have hBefore : e.request < (m.farm.worker e.who.1).request :=
    (h.log e hMem).not_starting hUsed hStarting
  omega

-- ---------------------------------------------------------------------------
-- Steps of the workers
-- ---------------------------------------------------------------------------

theorem spentOn_congr (hLog : m'.log = m.log) (hServing : (m'.box who).serving = (m.box who).serving) :
    m'.spentOn ctl who = m.spentOn ctl who := by
  rw [spentOn, spentOn, hLog, hServing]

theorem act_step (h : m.act pathEnv w a = some m') :
    m.farm.step pathEnv (w, a) = some m'.farm ∧ m'.log = m.log := by
  obtain ⟨f, hStep, hNext⟩ := Option.bind_eq_some_iff.mp h
  cases hBox : a.box? with
  | none =>
    rw [hBox] at hNext
    obtain rfl := Option.some.inj hNext
    exact ⟨hStep, rfl⟩
  | some c =>
    simp only [hBox, follow] at hNext
    split at hNext
    · obtain rfl := Option.some.inj hNext
      exact ⟨hStep, rfl⟩
    · cases hNext

/-- The groups behind a step that belongs to no container. -/
theorem act_dirs (hBox : a.box? = none) (h : m.act pathEnv w a = some m') : m'.dirs = m.dirs := by
  obtain ⟨f, -, hNext⟩ := Option.bind_eq_some_iff.mp h
  rw [hBox] at hNext
  obtain rfl := Option.some.inj hNext
  rfl

/-- **A step that belongs to no container keeps the groups.** -/
theorem Inv.turn (h : m.Inv pathEnv firstUid) (hBox : a.box? = none)
    (hAct : m.act pathEnv w a = some m') : m'.Inv pathEnv firstUid := by
  obtain ⟨hStep, hLog⟩ := act_step hAct
  have hDirs := act_dirs hBox hAct
  have hTurned := Farm.turned_of_step h.farm hBox hStep
  refine ⟨h.farm.snoc hStep, ?_, ?_, ?_⟩
  · intro ctl id g hDir
    rw [hDirs] at hDir
    obtain ⟨who, ⟨hPc, hEngaged⟩, hId, hKept⟩ := h.kept ctl id g hDir
    obtain ⟨hEngaged', hStill⟩ := hTurned.engaged who hEngaged
    have hPcEq : (m'.box who).pc = (m.box who).pc := hStill.pc
    have hBlock : (m'.box who).block = (m.box who).block := hStill.block
    refine ⟨who, ⟨hPcEq ▸ hPc, hEngaged'⟩, hStill.id.trans hId, ?_, ?_, ?_⟩
    · intro t hMem
      obtain ⟨hWho, hSlave, hLaunched⟩ := hKept.tasks t hMem
      refine ⟨hWho, fun hNone => hSlave (hStill.slave.symm.trans hNone), ?_⟩
      obtain ⟨j, hAnswers⟩ := hEngaged'
      exact (hTurned.launched who.1 hLaunched).resolve_right hAnswers.ne_accept
    · intro hPc
      rw [spentOn_congr hLog hStill.serving]
      exact hKept.charged (hPcEq ▸ hPc)
    · intro hCtl hPc
      rw [hBlock]
      exact hKept.limit hCtl (hPcEq ▸ hPc)
  · intro ctl who hPc
    have hOld := hTurned.hasCgroups who hPc
    have hId : (m'.box who).id = (m.box who).id := (hTurned.engaged who (h.engaged hOld)).2.id
    rw [group, hDirs, hId]
    exact h.has ctl who hOld
  · intro e hMem
    rw [hLog] at hMem
    exact hTurned.past _ _ (h.log e hMem)

-- ---------------------------------------------------------------------------
-- Steps of a container
-- ---------------------------------------------------------------------------

theorem setGroup_apply (m : Machine n) (who : Owner n) (g : Controller → Option (Cgroup n))
    (ctl : Controller) (id : Uid) :
    m.setGroup who g ctl id = if id = (m.box who).id then g ctl else m.dirs ctl id :=
  Function.update_apply ..

/-- A step of a container, with what its call makes of the groups. -/
theorem act_follow (hBox : a.box? = some c) (h : m.act pathEnv w a = some m') :
    ∃ g : Controller → Option (Cgroup n), m'.dirs = m.setGroup (w, c) g ∧
      ∀ ctl, ((m.box (w, c)).cgroupCall (m'.box (w, c))).apply (w, c) ctl (m.group ctl (w, c)) =
        some (g ctl) := by
  obtain ⟨f, -, hNext⟩ := Option.bind_eq_some_iff.mp h
  simp only [hBox, follow] at hNext
  split at hNext
  · rename_i cpuacct memory hCpuacct hMemory
    obtain rfl := Option.some.inj hNext
    refine ⟨_, rfl, fun ctl => ?_⟩
    cases ctl with
    | cpuacct => exact hCpuacct
    | memory => exact hMemory
  · cases hNext

/-- Nothing changes for another container. -/
theorem Holds.other (h : m.Holds who') (hMoved : m.farm.Moved m'.farm who) (hNe : who' ≠ who) :
    m'.Holds who' := by
  have hBox : m'.box who' = m.box who' := hMoved.others who' hNe
  exact ⟨hBox ▸ h.1, hMoved.engaged who' h.2 fun hEq => absurd hEq hNe⟩

theorem Kept.still (h : m.Kept ctl who' g) (hMoved : m.farm.Moved m'.farm who)
    (hLog : m'.log = m.log) (hBox : m'.box who' = m.box who') : m'.Kept ctl who' g := by
  refine ⟨fun t hMem => ?_, ?_, ?_⟩
  · obtain ⟨hWho, hSlave, hLaunched⟩ := h.tasks t hMem
    exact ⟨hWho, hBox ▸ hSlave, hMoved.launched _ hLaunched⟩
  · rw [spentOn_congr hLog (congrArg Box.serving hBox), hBox]
    exact h.charged
  · rw [hBox]
    exact h.limit

/-- Without its processes the group is still that of the container. -/
theorem Kept.leave (h : m.Kept ctl who' g) (who : Owner n) : m.Kept ctl who' (g.leave who) :=
  ⟨fun t hMem => h.tasks t (List.mem_of_mem_filter hMem), h.charged, h.limit⟩

theorem Kept.leave_tasks (h : m.Kept ctl who g) : (g.leave who).tasks = [] := by
  refine List.filter_eq_nil_iff.mpr fun t hMem => ?_
  simp [(h.tasks t hMem).1]

/-- The container stays in its run. -/
theorem Kept.goesOn {g' : Cgroup n} (h : m.Kept ctl who g) (hMoved : m.farm.Moved m'.farm who)
    (hLog : m'.log = m.log) (hPc : (m.box who).pc.HasCgroups = true)
    (hTasks : ∀ t ∈ g'.tasks, t = who ∧ (m'.box who).slave ≠ none ∧
      (m'.farm.worker who.1).Launched)
    (hCharged : g'.charged = g.charged) (hLimit : g'.limit = g.limit) : m'.Kept ctl who g' := by
  have hServing : (m'.box who).serving = (m.box who).serving := hMoved.run hPc
  have hMemory : (m'.box who).block.task.memoryLimitKb = (m.box who).block.task.memoryLimitKb := by
    have hParameters := congrArg Task.memoryLimitKb hMoved.parameters
    exact hParameters
  refine ⟨hTasks, fun _ => ?_, fun hCtl _ => ?_⟩
  · rw [hCharged, spentOn_congr hLog hServing]
    exact h.charged hPc
  · rw [hLimit, hMemory]
    exact h.limit hCtl hPc

/-- The slave that enters its groups is behind the start barrier. -/
theorem Inv.launched_of_enters (h : m.Inv pathEnv firstUid)
    (hSlave : (m.box who).slave.map Slave.pc = some .setupRlimits) :
    (m.farm.worker who.1).Launched := by
  obtain ⟨ids, hInv⟩ := Farm.inv_of_reachable h.farm who.1
  obtain ⟨sl, hSome, hPc⟩ := Option.map_eq_some_iff.mp hSlave
  obtain ⟨v, hSees⟩ := (m.farm.among who.1 ids).sees_total (m.farm.among who.1 ids).view who.2
  have hServing := Box.serving_of_hasCgroups ((hInv.boxes who.2 v hSees).slave.hasCgroups hSome)
  obtain ⟨j, hUsed, hUnanswered⟩ : m.farm.Engaged who :=
    Farm.engaged_of_serving h.farm hServing
  have hFits := hInv.boxes who.2 _ (.used hUsed)
  rcases hUnanswered with hStarting | hRunning
  · -- where the start barrier holds no slave gets that far
    exfalso
    have hHas := hFits.slave
    rcases hHas.pc_of_some hSome with hBox | hBox | hBox <;>
      simp only [Box.HasSlave, hBox] at hHas <;>
      obtain ⟨sl', hSome', -, hBefore, -⟩ := hHas <;>
      obtain rfl := Option.some.inj (hSome.symm.trans hSome') <;>
      simpa [Box.SlaveStarting, hPc] using hBefore hStarting
  · exact Sys.launched_of_running hRunning

/-- A step outside of the places with groups. -/
theorem Inv.regroup_idle (h : m.Inv pathEnv firstUid) (hMoved : m.farm.Moved m'.farm who)
    (hLog : m'.log = m.log) (hPc : (m.box who).pc.HasCgroups = false) {id : Uid}
    (hDir : m.dirs ctl id = some g) :
    ∃ who', m'.Holds who' ∧ (m'.box who').id = id ∧ m'.Kept ctl who' g := by
  obtain ⟨who', hHolds, hSame, hKept⟩ := h.kept ctl id g hDir
  -- a container that has ended with its groups does not move
  have hEnded : who' = who → (m.box who).Ended := by
    rintro rfl
    rcases hHolds.1 with hOld | hDead
    · rw [hPc] at hOld
      cases hOld
    · exact .inr hDead
  have hBox : m'.box who' = m.box who' := by
    rcases eq_or_ne who' who with rfl | hNe
    · exact hMoved.ended (hEnded rfl)
    · exact hMoved.others who' hNe
  refine ⟨who', ⟨hBox ▸ hHolds.1, ?_⟩, hBox ▸ hSame, hKept.still hMoved hLog hBox⟩
  exact hMoved.engaged who' hHolds.2 fun hEq => .inr (hEnded hEq)

/-- The groups that a container has just made. -/
theorem Inv.kept_create (h : m.Inv pathEnv firstUid)
    (hLog : m'.log = m.log) (hOld : (m.box who).pc = .createCgroups)
    (hNew : m'.box who = { m.box who with pc := .fork }) :
    m'.Kept ctl who (Cgroup.create (m.box who).block.task.memoryLimitKb ctl none) := by
  have hServing : (m'.box who).serving = (m.box who).serving := by rw [hNew]
  have hMemory : (m'.box who).block.task.memoryLimitKb = (m.box who).block.task.memoryLimitKb := by
    rw [hNew]
  have hEmpty : ∀ ctl kb, (Cgroup.create (n := n) kb ctl none).tasks = [] ∧
      (Cgroup.create (n := n) kb ctl none).charged = [] := by
    rintro (_ | _) kb <;> exact ⟨rfl, rfl⟩
  refine ⟨fun t hMem => ?_, fun _ => ?_, fun hCtl _ => ?_⟩
  · rw [(hEmpty ctl _).1] at hMem
    cases hMem
  · rw [spentOn_congr hLog hServing, h.unspent hOld, (hEmpty ctl _).2]
  · subst hCtl
    rw [hMemory]
    show (limitInBytes _ <|> none) = _
    cases limitInBytes (m.box who).block.task.memoryLimitKb <;> rfl

/-- The group of the container that makes the step. -/
theorem Inv.regroup_own (h : m.Inv pathEnv firstUid) (hMoved : m.farm.Moved m'.farm who)
    (hReach' : Reachable (Farm.step pathEnv) (Farm.initial n firstUid) m'.farm)
    (hLog : m'.log = m.log) {g' : Cgroup n}
    (hCall : ((m.box who).cgroupCall (m'.box who)).apply who ctl (m.group ctl who) = some (some g')) :
    ∃ who', m'.Holds who' ∧ (m'.box who').id = (m.box who).id ∧ m'.Kept ctl who' g' := by
  have hId : (m'.box who).id = (m.box who).id := hMoved.id
  have hRegroups : (m.box who).Regroups (m'.box who) := hMoved.regroups
  -- while the container has groups it goes on having to answer
  have hHolds : (m.box who).pc.HasCgroups = true →
      ((m'.box who).pc.HasCgroups = true ∨ (m'.box who).pc = .died ∨ (m'.box who).pc = .killed) →
      m'.Holds who := fun hPc hPc' =>
    ⟨hPc', hMoved.engaged who (h.engaged hPc) fun _ => .inl hPc⟩
  cases hRegroups with
  | idle hOld hNew hIdle =>
    rcases hIdle with hEq | hEq
    · rw [hEq] at hCall
      obtain ⟨g, hGroup, rfl⟩ := Option.map_eq_some_iff.mp (Option.some.inj hCall)
      obtain ⟨who', hHolds', hSame, hKept⟩ := h.regroup_idle hMoved hLog hOld hGroup
      exact ⟨who', hHolds', hSame, hKept.leave who⟩
    · rw [hEq] at hCall
      exact h.regroup_idle hMoved hLog hOld (Option.some.inj hCall)
  | creates hOld hNew hEq =>
    rw [hEq, h.fresh hOld] at hCall
    obtain rfl := Option.some.inj (Option.some.inj hCall)
    have hHas : (m'.box who).pc.HasCgroups = true := by
      rw [hNew]
      rfl
    have hEngaged : m'.farm.Engaged who :=
      Farm.engaged_of_serving hReach' (Box.serving_of_hasCgroups hHas)
    exact ⟨who, ⟨.inl hHas, hEngaged⟩, hId, h.kept_create hLog hOld hNew⟩
  | enters hOld hNew hSlave hSlave' hEq =>
    rw [hEq] at hCall
    obtain ⟨g, hGroup, hSome⟩ := Option.map_eq_some_iff.mp hCall
    obtain rfl := Option.some.inj hSome
    have hKept := (h.owner (h.engaged hOld) hGroup).2
    have hLaunched := hMoved.launched who.1 (h.launched_of_enters hSlave)
    refine ⟨who, hHolds hOld (.inl hNew), hId, hKept.goesOn hMoved hLog hOld ?_ rfl rfl⟩
    intro t hMem
    rcases List.mem_cons.mp hMem with rfl | hMem
    · exact ⟨rfl, hSlave', hLaunched⟩
    · exact ⟨(hKept.tasks t hMem).1, hSlave', hLaunched⟩
  | leaves hOld hNew hEq =>
    rw [hEq] at hCall
    obtain ⟨g, hGroup, rfl⟩ := Option.map_eq_some_iff.mp (Option.some.inj hCall)
    have hKept := (h.owner (h.engaged hOld) hGroup).2
    refine ⟨who, hHolds hOld (.inl hNew), hId, hKept.goesOn hMoved hLog hOld ?_ rfl rfl⟩
    rw [hKept.leave_tasks]
    exact fun t hMem => absurd hMem List.not_mem_nil
  | stays hOld hNew hSlave hEq =>
    rw [hEq] at hCall
    have hKept := (h.owner (h.engaged hOld) (Option.some.inj hCall)).2
    refine ⟨who, hHolds hOld (.inl hNew), hId, hKept.goesOn hMoved hLog hOld ?_ rfl rfl⟩
    intro t hMem
    exact ⟨(hKept.tasks t hMem).1, hSlave, hMoved.launched _ (hKept.tasks t hMem).2.2⟩
  | dies hOld hNew hEq =>
    rw [hEq] at hCall
    obtain ⟨g, hDie, rfl⟩ := Option.map_eq_some_iff.mp (Option.some.inj hCall)
    have hGroup : m.group ctl who = some g := by
      unfold Cgroup.die at hDie
      split at hDie
      · cases hDie
      · exact hDie
    have hKept := (h.owner (h.engaged hOld) hGroup).2
    have hPc : ¬ (m'.box who).pc.HasCgroups = true := by
      rw [hNew]
      exact Bool.false_ne_true
    refine ⟨who, hHolds hOld (.inr (.inl hNew)), hId, ?_, fun hHas => absurd hHas hPc,
      fun _ hHas => absurd hHas hPc⟩
    rw [hKept.leave_tasks]
    exact fun t hMem => absurd hMem List.not_mem_nil
  | killed hOld hNew hEq =>
    rw [hEq] at hCall
    obtain ⟨g, hGroup, rfl⟩ := Option.map_eq_some_iff.mp (Option.some.inj hCall)
    have hKept := (h.owner (h.engaged hOld) hGroup).2
    have hPc : ¬ (m'.box who).pc.HasCgroups = true := by
      rw [hNew]
      exact Bool.false_ne_true
    refine ⟨who, hHolds hOld (.inr (.inr hNew)), hId, ?_, fun hHas => absurd hHas hPc,
      fun _ hHas => absurd hHas hPc⟩
    rw [hKept.leave_tasks]
    exact fun t hMem => absurd hMem List.not_mem_nil
  | removes hOld hNew hEq =>
    rw [hEq, CgroupCall.apply] at hCall
    split at hCall
    · cases Option.some.inj hCall
    · cases hCall

/-- A container that has groups behind the step finds them. -/
theorem Inv.regroup_has (h : m.Inv pathEnv firstUid) (hMoved : m.farm.Moved m'.farm who)
    {g : Controller → Option (Cgroup n)} (hDirs : m'.dirs = m.setGroup who g)
    (hCall : ∀ ctl, ((m.box who).cgroupCall (m'.box who)).apply who ctl (m.group ctl who) =
      some (g ctl)) (ctl : Controller) (hPc : (m'.box who').pc.HasCgroups = true) :
    ∃ g, m'.group ctl who' = some g := by
  have hApply := hCall ctl
  have hRegroups : (m.box who).Regroups (m'.box who) := hMoved.regroups
  have hId : (m'.box who).id = (m.box who).id := hMoved.id
  rw [group, hDirs, setGroup_apply]
  rcases eq_or_ne who' who with rfl | hNe
  · rw [if_pos hId]
    cases hRegroups with
    | idle hOld hNew hEq =>
      rw [hPc] at hNew
      cases hNew
    | creates hOld hNew hEq =>
      rw [hEq] at hApply
      exact ⟨_, (Option.some.inj hApply).symm⟩
    | enters hOld hNew hSlave hSlave' hEq =>
      rw [hEq] at hApply
      obtain ⟨g', -, hSome⟩ := Option.map_eq_some_iff.mp hApply
      exact ⟨_, hSome.symm⟩
    | leaves hOld hNew hEq =>
      obtain ⟨g', hGroup⟩ := h.has ctl who' hOld
      rw [hEq, hGroup] at hApply
      exact ⟨_, (Option.some.inj hApply).symm⟩
    | stays hOld hNew hSlave hEq =>
      obtain ⟨g', hGroup⟩ := h.has ctl who' hOld
      rw [hEq, hGroup] at hApply
      exact ⟨_, (Option.some.inj hApply).symm⟩
    | dies hOld hNew | killed hOld hNew | removes hOld hNew =>
      rw [hNew] at hPc
      cases hPc
  · have hBox : m'.box who' = m.box who' := hMoved.others who' hNe
    rw [hBox] at hPc ⊢
    obtain ⟨g', hGroup⟩ := h.has ctl who' hPc
    by_cases hSame : (m.box who').id = (m.box who).id
    · -- two containers share an id: the one that makes the step has no groups
      rw [if_pos hSame]
      have hShared : m.group ctl who = some g' := by
        rw [group, ← hSame]
        exact hGroup
      have hNot : ¬ m.farm.Engaged who := fun hEngaged =>
        hNe (h.unique (h.engaged hPc) hEngaged hSame)
      have hIdle := hRegroups.idle_call
        (Bool.eq_false_iff.mpr fun hOld => hNot (h.engaged hOld))
        fun hOld => hNot (Farm.engaged_of_serving h.farm (.inr (.inl hOld)))
      rw [hShared] at hApply
      rcases hIdle with hEq | hEq <;> rw [hEq] at hApply
      · exact ⟨_, (Option.some.inj hApply).symm⟩
      · exact ⟨_, (Option.some.inj hApply).symm⟩
    · rw [if_neg hSame]
      exact ⟨g', hGroup⟩

/-- **A step of a container keeps the groups**: it changes its own and no others. -/
theorem Inv.regroup (h : m.Inv pathEnv firstUid) (hBox : a.box? = some c)
    (hAct : m.act pathEnv w a = some m') : m'.Inv pathEnv firstUid := by
  obtain ⟨hStep, hLog⟩ := act_step hAct
  obtain ⟨g, hDirs, hCall⟩ := act_follow hBox hAct
  have hMoved := Farm.moved_of_step h.farm hBox hStep
  have hReach' : Reachable (Farm.step pathEnv) (Farm.initial n firstUid) m'.farm := h.farm.snoc hStep
  generalize (w, c) = who at hDirs hCall hMoved
  refine ⟨hReach', ?_, ?_, ?_⟩
  · intro ctl id g' hDir
    rw [hDirs, setGroup_apply] at hDir
    split at hDir
    · rename_i hSame
      subst hSame
      exact h.regroup_own hMoved hReach' hLog (hDir ▸ hCall ctl)
    · rename_i hOther
      obtain ⟨who', hHolds', hSame, hKept⟩ := h.kept ctl id g' hDir
      have hNe : who' ≠ who := fun hEq => hOther (by rw [← hSame, hEq])
      have hBox' : m'.box who' = m.box who' := hMoved.others who' hNe
      exact ⟨who', hHolds'.other hMoved hNe, hBox' ▸ hSame, hKept.still hMoved hLog hBox'⟩
  · exact fun ctl who' hPc => h.regroup_has hMoved hDirs hCall ctl hPc
  · intro e hMem
    rw [hLog] at hMem
    exact hMoved.past _ _ (h.log e hMem)

-- ---------------------------------------------------------------------------
-- What the kernel does
-- ---------------------------------------------------------------------------

theorem chargeTo_eq {x : Charge} (h : m.chargeTo who x = some m') :
    ∃ g, m.group x.controller who = some g ∧ who ∈ g.tasks ∧ m' = { m with
      dirs := Function.update m.dirs x.controller
        (Function.update (m.dirs x.controller) (m.box who).id
          (some { g with charged := g.charged ++ [x] }))
      log := m.log ++ [⟨who, (m.box who).serving, x⟩] } := by
  unfold chargeTo at h
  split at h
  · cases h
  · rename_i g hGroup
    split at h
    · exact ⟨g, hGroup, ‹_›, (Option.some.inj h).symm⟩
    · cases h

/-- What is charged to one container is spent by it and by nobody else. -/
theorem spentOn_charge {x : Charge} (hLog : m'.log = m.log ++ [⟨who, (m.box who).serving, x⟩])
    (hBox : ∀ who, m'.box who = m.box who) :
    m'.spentOn ctl who' =
      if who = who' ∧ x.controller = ctl then m.spentOn ctl who' ++ [x] else m.spentOn ctl who' := by
  rw [spentOn, hLog, hBox, List.filter_append, List.map_append]
  by_cases hSame : who = who' ∧ x.controller = ctl
  · obtain ⟨rfl, rfl⟩ := hSame
    simp [spentOn]
  · rw [if_neg hSame]
    have hNone : ¬ (who = who' ∧ (m.box who).serving = (m.box who').serving ∧ x.controller = ctl) :=
      fun h => hSame ⟨h.1, h.2.2⟩
    simp [spentOn, hNone]

/-- The worker and the containers are the same. -/
theorem Kept.of_farm {m' : Machine n} (h : m.Kept ctl who g) (hFarm : m'.farm = m.farm)
    (hSpent : m'.spentOn ctl who = m.spentOn ctl who) : m'.Kept ctl who g := by
  obtain ⟨farm, dirs, log⟩ := m'
  obtain rfl : farm = m.farm := hFarm
  exact ⟨h.tasks, fun hPc => (h.charged hPc).trans hSpent.symm, h.limit⟩

/-- A container with a slave has groups, and runs for the present request. -/
theorem Inv.of_slave (h : m.Inv pathEnv firstUid) (hSlave : (m.box who).slave ≠ none) :
    (m.box who).serving = (m.farm.worker who.1).request := by
  obtain ⟨ids, hInv⟩ := Farm.inv_of_reachable h.farm who.1
  obtain ⟨v, hSees⟩ := (m.farm.among who.1 ids).sees_total (m.farm.among who.1 ids).view who.2
  have hFits := hInv.boxes who.2 v hSees
  obtain ⟨sl, hSome⟩ := Option.ne_none_iff_exists'.mp hSlave
  exact hFits.serving (Box.serving_of_hasCgroups (hFits.slave.hasCgroups hSome))

/-- **A charge keeps the groups.** -/
theorem Inv.charge (h : m.Inv pathEnv firstUid) {x : Charge} (hCharge : m.chargeTo who x = some m') :
    m'.Inv pathEnv firstUid := by
  obtain ⟨g, hGroup, hMem, hNew⟩ := chargeTo_eq hCharge
  obtain ⟨who', hHolds, -, hKept⟩ := h.kept _ _ g hGroup
  obtain ⟨rfl, hSlave, hLaunched⟩ := hKept.tasks who hMem
  have hFarm : m'.farm = m.farm := by rw [hNew]
  have hLog : m'.log = m.log ++ [⟨who, (m.box who).serving, x⟩] := by rw [hNew]
  have hBox : ∀ who, m'.box who = m.box who := fun who => by rw [box, hFarm, box]
  have hSpent : ∀ ctl who', m'.spentOn ctl who' =
      if who = who' ∧ x.controller = ctl then m.spentOn ctl who' ++ [x] else m.spentOn ctl who' :=
    fun ctl who' => spentOn_charge hLog hBox
  have hDirs : ∀ ctl id, m'.dirs ctl id = if ctl = x.controller ∧ id = (m.box who).id then
      some { g with charged := g.charged ++ [x] } else m.dirs ctl id := by
    intro ctl id
    rw [hNew]
    show Function.update m.dirs x.controller _ ctl id = _
    by_cases hCtl : ctl = x.controller
    · subst hCtl
      rw [Function.update_self, Function.update_apply]
      simp
    · rw [Function.update_of_ne hCtl, if_neg fun hSame => hCtl hSame.1]
  refine ⟨hFarm ▸ h.farm, ?_, ?_, ?_⟩
  · intro ctl id g' hDir
    rw [hDirs] at hDir
    split at hDir
    · rename_i hSame
      obtain ⟨rfl, rfl⟩ := hSame
      obtain rfl := Option.some.inj hDir
      refine ⟨who, ⟨hBox who ▸ hHolds.1, hFarm ▸ hHolds.2⟩, by rw [hBox], ?_⟩
      refine ⟨fun t hMem => ?_, fun hPc => ?_, fun hCtl hPc => ?_⟩
      · rw [hBox, hFarm]
        exact hKept.tasks t hMem
      · rw [hBox] at hPc
        rw [hSpent, if_pos ⟨rfl, rfl⟩, ← hKept.charged hPc]
      · rw [hBox] at hPc ⊢
        exact hKept.limit hCtl hPc
    · rename_i hOther
      obtain ⟨who', hHolds', hSame, hKept'⟩ := h.kept ctl id g' hDir
      refine ⟨who', ⟨hBox who' ▸ hHolds'.1, hFarm ▸ hHolds'.2⟩, by rw [hBox, hSame],
        hKept'.of_farm hFarm ?_⟩
      rw [hSpent, if_neg]
      rintro ⟨rfl, rfl⟩
      exact hOther ⟨rfl, hSame.symm⟩
  · intro ctl who' hPc
    rw [hBox] at hPc
    obtain ⟨g', hGroup'⟩ := h.has ctl who' hPc
    rw [group, hBox, hDirs]
    split
    · exact ⟨_, rfl⟩
    · exact ⟨g', hGroup'⟩
  · intro e hMem
    rw [hLog] at hMem
    rw [hFarm]
    rcases List.mem_append.mp hMem with hOld | hNow
    · exact h.log e hOld
    · obtain rfl := List.mem_singleton.mp hNow
      have hRequest := h.of_slave hSlave
      exact ⟨hRequest.le, fun _ => .inl hLaunched⟩

/-- **The end of a process keeps the groups.** -/
theorem Inv.empties (h : m.Inv pathEnv firstUid)
    (hDirs : m'.dirs = m.setGroup who fun ctl => (m.group ctl who).map (Cgroup.leave who))
    (hFarm : m'.farm = m.farm) (hLog : m'.log = m.log) : m'.Inv pathEnv firstUid := by
  have hBox : ∀ who, m'.box who = m.box who := fun who => by rw [box, hFarm, box]
  have hSpent : ∀ ctl who, m'.spentOn ctl who = m.spentOn ctl who :=
    fun ctl who => spentOn_congr hLog (by rw [hBox])
  have hOld : ∀ ctl id g', m'.dirs ctl id = some g' →
      ∃ g, m.dirs ctl id = some g ∧ (g' = g ∨ g' = g.leave who) := by
    intro ctl id g' hDir
    rw [hDirs, setGroup_apply] at hDir
    split at hDir
    · rename_i hSame
      obtain ⟨g, hGroup, rfl⟩ := Option.map_eq_some_iff.mp hDir
      exact ⟨g, hSame ▸ hGroup, .inr rfl⟩
    · exact ⟨g', hDir, .inl rfl⟩
  refine ⟨hFarm ▸ h.farm, ?_, ?_, ?_⟩
  · intro ctl id g' hDir
    obtain ⟨g, hDir, hSame⟩ := hOld ctl id g' hDir
    obtain ⟨who', hHolds, hId, hKept⟩ := h.kept ctl id g hDir
    refine ⟨who', ⟨hBox who' ▸ hHolds.1, hFarm ▸ hHolds.2⟩, by rw [hBox, hId], ?_⟩
    have hKept' := hKept.of_farm hFarm (hSpent ctl who')
    rcases hSame with rfl | rfl
    · exact hKept'
    · exact hKept'.leave who
  · intro ctl who' hPc
    rw [hBox] at hPc
    obtain ⟨g, hGroup⟩ := h.has ctl who' hPc
    rw [group, hBox, hDirs, setGroup_apply]
    split
    · rename_i hSame
      rw [group, hSame] at hGroup
      exact ⟨_, congrArg (Option.map (Cgroup.leave who)) hGroup⟩
    · exact ⟨g, hGroup⟩
  · rw [hLog, hFarm]
    exact h.log

-- ---------------------------------------------------------------------------
-- All steps
-- ---------------------------------------------------------------------------

theorem Inv.act (h : m.Inv pathEnv firstUid) (hAct : m.act pathEnv w a = some m') :
    m'.Inv pathEnv firstUid := by
  cases hBox : a.box? with
  | none => exact h.turn hBox hAct
  | some c => exact h.regroup hBox hAct

/-- **Every step keeps the groups.** -/
theorem Inv.step {x : MachineAct n} (h : m.Inv pathEnv firstUid)
    (hStep : m.step pathEnv reads x = some m') : m'.Inv pathEnv firstUid := by
  cases x with
  | act w a =>
    simp only [Machine.step] at hStep
    split at hStep
    · cases hStep
    · exact h.act hStep
  | tick w c wallMs =>
    simp only [Machine.step] at hStep
    split at hStep
    · exact h.act hStep
    · obtain ⟨cpuMs, -, hAct⟩ := Option.bind_eq_some_iff.mp hStep
      exact h.act hAct
  | readUsage w c wallMs =>
    obtain ⟨u, -, hAct⟩ := Option.bind_eq_some_iff.mp hStep
    exact h.act hAct
  | charge w c x => exact h.charge hStep
  | empties w c =>
    simp only [Machine.step] at hStep
    split at hStep
    · obtain rfl := Option.some.inj hStep
      exact h.empties rfl rfl rfl
    · cases hStep

theorem inv_of_reachable (hReach : Reachable (step pathEnv reads) (initial n firstUid) m) :
    m.Inv pathEnv firstUid :=
  invariant_of_reachable (fun _ _ _ h hStep => h.step hStep) (inv_initial n firstUid) hReach

-- ---------------------------------------------------------------------------
-- What each run has for itself
-- ---------------------------------------------------------------------------

/-- Each run has new groups of its own, is alone in them, is charged for what its processes
do and for nothing else, and has the memory limit of its task. -/
structure Accounted (m : Machine n) : Prop where
  fresh : ∀ who ctl, (m.box who).pc = .createCgroups →
    m.group ctl who = none ∧ m.spentOn ctl who = []
  charged : ∀ who ctl, (m.box who).pc.HasCgroups = true →
    ∃ g, m.group ctl who = some g ∧ (∀ t ∈ g.tasks, t = who) ∧ g.charged = m.spentOn ctl who
  limit : ∀ who j task, (m.box who).pc.HasCgroups = true →
    (m.farm.worker who.1).Row j who.2 task →
    ∃ g, m.group .memory who = some g ∧ g.limit = limitInBytes task.memoryLimitKb
  alone : ∀ who who', (m.box who).pc.HasCgroups = true → (m.box who').pc.HasCgroups = true →
    (m.box who).id = (m.box who').id → who = who'

/-- The worker has written the task of a container that has to answer. -/
theorem wrote_of_engaged {s : Sys} {j : Nat} (h : s.Engaged j c) : s.worker.Wrote j := by
  have hView := h.view
  cases hWorker : s.worker with
  | accept | prepareContainers | startContainer | resetBarrier | writeTasks =>
    simp [Sys.view, WorkerAt.view, hWorker] at hView
  | _ => trivial

/-- **The accounts of the runs are kept apart**, whatever the workers, the containers and
the kernel do, and in whatever order. -/
theorem accounted_of_reachable (hReach : Reachable (step pathEnv reads) (initial n firstUid) m) :
    m.Accounted := by
  have hInv := inv_of_reachable hReach
  refine ⟨fun who ctl hPc => ⟨hInv.fresh hPc ctl, hInv.unspent hPc ctl⟩, ?_, ?_, ?_⟩
  · intro who ctl hPc
    obtain ⟨g, hGroup⟩ := hInv.has ctl who hPc
    have hKept := (hInv.owner (hInv.engaged hPc) hGroup).2
    exact ⟨g, hGroup, fun t hMem => (hKept.tasks t hMem).1, hKept.charged hPc⟩
  · rintro who j task hPc hRow
    obtain ⟨g, hGroup⟩ := hInv.has .memory who hPc
    have hKept := (hInv.owner (hInv.engaged hPc) hGroup).2
    obtain ⟨ids, -, hAlone⟩ := Farm.reachable_among hInv.farm who.1
    obtain ⟨i, hEngaged⟩ := hInv.engaged hPc
    have hSame : i = j := by
      have hDistinct := (Sys.inv_of_reachable hAlone).roster.distinct
      have hLt := (List.getElem?_eq_some_iff.mp hEngaged.used).1
      exact (List.getElem?_inj hLt hDistinct).mp (hEngaged.used.trans hRow.1.symm)
    subst hSame
    have hWrote : (m.farm.worker who.1).worker.Wrote i := wrote_of_engaged hEngaged
    have hWritten := (Sys.rows_of_reachable hAlone).2.written i who.2 task hRow hWrote
    have hMemory : (m.box who).block.task.memoryLimitKb = task.memoryLimitKb := by
      have hParameters := congrArg Task.memoryLimitKb hWritten
      exact hParameters
    exact ⟨g, hGroup, (hKept.limit rfl hPc).trans (by rw [hMemory])⟩
  · exact fun who who' hPc hPc' hSame => hInv.unique (hInv.engaged hPc) (hInv.engaged hPc') hSame

/-- Reads that hand out one byte each. -/
def bytewise : Chunks where
  chunks content := content.map fun c => [c]
  whole content := by
    induction content with
    | nil => rfl
    | cons c content ih => exact congrArg (c :: ·) ih

/-- A task that may use 5 ms, run up to its target, which uses 7 ms and 400 KiB. -/
def chargedRun : List (MachineAct 1) :=
  ((Sys.requestRun { argv := [lit "true"], timeLimitMs := 5 }).take 28).map (.act 0) ++
    [.charge 0 0 (.cpu 3000000 4000000), .charge 0 0 (.allocate 409600), .act 0 (.container 0)]

/-- A worker serves a task in a temporary container, whose target uses 7 ms, and puts the id
back. Another one takes the id, and its target uses 3 ms. -/
def againRun (w v : Fin n) : List (MachineAct n) :=
  (Farm.lingeringRun.take 27).map (.act w) ++ [.charge w 0 (.cpu 3000000 4000000)] ++
    [.act w (.exit 0 (.exited 0)), .act w (.container 0), .act w (.container 0),
      .act w (.containerSigchld 0), .readUsage w 0 12] ++
    (Farm.lingeringRun.drop 32).map (.act w) ++
    ((Sys.requestRun { argv := [lit "true"], timeLimitMs := 5 }).take 28).map (.act v) ++
    [.charge v 0 (.cpu 1000000 2000000)]

theorem accounted_of_againRun : ∃ m,
    run (step none bytewise) (initial 2 1000) (againRun 0 1) = some m ∧
    m.Accounted ∧ (m.box (0, 0)).id = (m.box (1, 0)).id ∧
    m.spentOn .cpuacct (0, 0) = [.cpu 3000000 4000000] ∧
    ∃ g, m.group .cpuacct (1, 0) = some g ∧ g.charged = [.cpu 1000000 2000000] := by
  obtain ⟨m, hRun⟩ : ∃ m, run (step none bytewise) (initial 2 1000) (againRun 0 1) = some m :=
    Option.isSome_iff_exists.mp (by decide +kernel)
  have hAccounted := accounted_of_reachable ⟨againRun 0 1, hRun⟩
  have hHas : (m.box (1, 0)).pc.HasCgroups = true :=
    of_run_map (f := fun m => (m.box (1, 0)).pc.HasCgroups) (by decide +kernel) hRun
  have hSpent : m.spentOn .cpuacct (1, 0) = [.cpu 1000000 2000000] :=
    of_run_map (f := fun m => m.spentOn .cpuacct (1, 0)) (by decide +kernel) hRun
  obtain ⟨g, hGroup, -, hCharged⟩ := hAccounted.charged (1, 0) .cpuacct hHas
  exact ⟨m, hRun, hAccounted,
    of_run_map (f := fun m => decide ((m.box (0, 0)).id = (m.box (1, 0)).id)) (by decide +kernel)
      hRun |> of_decide_eq_true,
    of_run_map (f := fun m => m.spentOn .cpuacct (0, 0)) (by decide +kernel) hRun,
    g, hGroup, hCharged.trans hSpent⟩

-- ---------------------------------------------------------------------------
-- What the container says about a run
-- ---------------------------------------------------------------------------

/-- All that the processes of a container have been charged in its run. -/
def spent (m : Machine n) (who : Owner n) : List Charge :=
  (m.log.filter fun e => e.who = who ∧ e.request = (m.box who).serving).map Entry.charge

theorem spentOn_eq (m : Machine n) (ctl : Controller) (who : Owner n) :
    m.spentOn ctl who = (m.spent who).filter fun x => x.controller = ctl := by
  rw [spentOn, spent, List.filter_map, List.filter_filter]
  congr 1
  refine List.filter_congr fun e _ => ?_
  simp only [Function.comp_apply, Bool.decide_and, Bool.and_comm, Bool.and_left_comm]

/-- The files of the groups of a container. -/
theorem Inv.files (h : m.Inv pathEnv firstUid) (hPc : (m.box who).pc.HasCgroups = true)
    (ctl : Controller) : m.files ctl who = (Counters.tally (m.spent who)).files ctl := by
  obtain ⟨g, hGroup⟩ := h.has ctl who hPc
  have hCharged := (h.owner (h.engaged hPc) hGroup).2.charged hPc
  funext filename
  rw [Machine.files, hGroup, Option.bind_some, hCharged, spentOn_eq, Counters.files_filter]

theorem follow_some (who : Owner n) {f : Farm n}
    (hCall : ∀ ctl, ∃ g, ((m.box who).cgroupCall ((f.worker who.1).box who.2)).apply who ctl
      (m.group ctl who) = some g) : ∃ dirs, m.follow who f = some { m with farm := f, dirs } := by
  obtain ⟨cpuacct, hCpuacct⟩ := hCall .cpuacct
  obtain ⟨memory, hMemory⟩ := hCall .memory
  simp only [follow, hCpuacct, hMemory]
  exact ⟨_, rfl⟩

/-- A step of a container without a slave that makes no groups and removes none. -/
theorem follow_leaves (who : Owner n) {f : Farm n} {b : Box} (hBox : (f.worker who.1).box who.2 = b)
    (hSlave : b.slave = none) (hFork : b.pc ≠ .fork) (hRemove : b.pc ≠ .resultsBarrier) :
    ∃ dirs, m.follow who f = some { m with farm := f, dirs } := by
  refine follow_some who fun ctl => ?_
  rw [hBox, Box.cgroupCall]
  by_cases hDied : b.pc = .died
  · rw [if_pos hDied]
    cases (m.box who).pc.HasCgroups <;> exact ⟨_, rfl⟩
  · rw [if_neg hDied, if_neg (fun h => hFork h.2), if_neg (fun h => hRemove h.2), if_pos hSlave]
    exact ⟨_, rfl⟩

/-- The end of `wait_for_slave`, in a container without a slave. -/
theorem farm_readUsage (pathEnv : Option Str) {f : Farm n} {b : Box} (hBox : (f.worker w).box c = b)
    (hPc : b.pc = .readUsage) (hHandled : b.sigchld = none) (hSlave : b.slave = none) (u : Usage) :
    ∃ f' b', f.step pathEnv (w, .readUsage c u) = some f' ∧ (f'.worker w).box c = b' ∧
      b'.slave = none ∧ (b'.pc = .died ∨ b'.pc = .umountBinds) ∧
      b'.block = b.block.setUsage b.serving u := by
  have hSee : (f.see w).box c = b := hBox
  have hRead : (f.see w).step pathEnv (.readUsage c u) = some ((f.see w).setBox c
      (if (b.block.setUsage b.serving u).error then
        { b with block := b.block.setUsage b.serving u }.stop .died
      else { b with block := b.block.setUsage b.serving u, pc := .umountBinds })) := by
    simp only [Sys.step, Sys.readUsage, hSee]
    rw [if_pos ⟨hPc, hHandled⟩]
  obtain ⟨f', hStep, hWorker⟩ := Farm.step_of_see (Farm.own_of_box rfl) hRead
  refine ⟨f', _, hStep, rfl, ?_⟩
  rw [hWorker, Sys.setBox_box_self]
  split
  · exact ⟨rfl, .inl rfl, rfl⟩
  · exact ⟨hSlave, .inr rfl, rfl⟩

theorem Inv.reading_of_act (h : m.Inv pathEnv firstUid) (hPc : (m.box who).pc = .readUsage)
    (hAct : m.act pathEnv w a = some m')
    (hNot : w = who.1 → ∀ u, a ≠ .readUsage who.2 u) :
    (m'.box who).pc = .readUsage ∨ (m'.box who).pc = .died ∨ (m'.box who).pc = .killed := by
  obtain ⟨hStep, -⟩ := act_step hAct
  cases hBox : a.box? with
  | none =>
    have hHas : (m.box who).pc.HasCgroups = true := by rw [hPc]; rfl
    obtain ⟨-, hStill⟩ := (Farm.turned_of_step h.farm hBox hStep).engaged who (h.engaged hHas)
    exact .inl (hStill.pc.trans hPc)
  | some c =>
    by_cases hSame : who = (w, c)
    · subst hSame
      obtain ⟨ids, -, hOwn, -⟩ := Farm.step_among h.farm hStep
      have hReading : ((m.farm.among w ids).box c).pc = .readUsage := hPc
      have hNext := Sys.reading_of_step hReading hBox hOwn (hNot rfl)
      exact hNext
    · have hKept : m'.box who = m.box who := (Farm.moved_of_step h.farm hBox hStep).others who hSame
      exact .inl (hKept ▸ hPc)

/-- A container that is about to read its files goes on by reading them, or ends. -/
theorem Inv.reading_of_step (h : m.Inv pathEnv firstUid) (hPc : (m.box (w, c)).pc = .readUsage)
    {x : MachineAct n} (hStep : m.step pathEnv reads x = some m')
    (hNot : ∀ wallMs, x ≠ .readUsage w c wallMs) : (m'.box (w, c)).pc = .readUsage ∨
      (m'.box (w, c)).pc = .died ∨ (m'.box (w, c)).pc = .killed := by
  cases x with
  | act v a =>
    simp only [Machine.step] at hStep
    split at hStep
    · cases hStep
    · rename_i hReads
      refine h.reading_of_act hPc hStep fun _ u => ?_
      rintro rfl
      exact hReads rfl
  | tick v c' wallMs =>
    simp only [Machine.step] at hStep
    split at hStep
    · exact h.reading_of_act hPc hStep fun _ _ => Act.noConfusion
    · obtain ⟨cpuMs, -, hAct⟩ := Option.bind_eq_some_iff.mp hStep
      exact h.reading_of_act hPc hAct fun _ _ => Act.noConfusion
  | readUsage v c' wallMs =>
    obtain ⟨u, -, hAct⟩ := Option.bind_eq_some_iff.mp hStep
    refine h.reading_of_act hPc hAct ?_
    rintro rfl u' hSame
    obtain ⟨rfl, -⟩ := Act.readUsage.inj hSame
    exact hNot wallMs rfl
  | charge v c' x =>
    obtain ⟨-, -, -, rfl⟩ := chargeTo_eq hStep
    exact .inl hPc
  | empties v c' =>
    simp only [Machine.step] at hStep
    split at hStep
    · obtain rfl := Option.some.inj hStep
      exact .inl hPc
    · cases hStep

/-- It can always end there. -/
theorem reading_dies (hPc : (m.box (w, c)).pc = .readUsage) : ∃ m',
    m.step pathEnv reads (.act w (.fail (.container c))) = some m' ∧
      (m'.box (w, c)).pc = .died := by
  have hSee : ((m.farm.see w).box c).pc = .readUsage := hPc
  have hFails : (m.farm.see w).step pathEnv (.fail (.container c)) =
      some ((m.farm.see w).setBox c (((m.farm.see w).box c).stop .died)) := by
    simp only [Sys.step, Sys.fail, Sys.failContainer, hSee]
  obtain ⟨f, hStep, hWorker⟩ := Farm.step_of_see (Farm.own_of_box rfl) hFails
  have hBox : (f.worker w).box c = ((m.farm.see w).box c).stop .died := by
    rw [hWorker, Sys.setBox_box_self]
  obtain ⟨dirs, hFollow⟩ := follow_leaves (m := m) (w, c) hBox rfl (by simp [Box.stop])
    (by simp [Box.stop])
  refine ⟨{ m with farm := f, dirs }, ?_, ?_⟩
  · simp only [step, act, hStep]
    exact hFollow
  · show ((f.worker w).box c).pc = _
    rw [hBox]
    rfl

/-- **What a container says about a run** is the sum of what the processes of this run have
been charged, up to the last one of them: there is nothing in it of any other run, and
nothing is missing. Where a sum is no `long long`, `stoll` throws, and the container ends:
it can die there, and whatever is done, it stays where it is until it has ended. -/
theorem usage_of_reachable (hReach : Reachable (step pathEnv reads) (initial n firstUid) m)
    (hPc : (m.box (w, c)).pc = .readUsage) (hHandled : (m.box (w, c)).sigchld = none)
    (wallMs : Int64) :
    ((Counters.tally (m.spent (w, c))).Fits → ∃ m',
      m.step pathEnv reads (.readUsage w c wallMs) = some m' ∧
      (m'.box (w, c)).block = (m.box (w, c)).block.setUsage (m.box (w, c)).serving
        ((Counters.tally (m.spent (w, c))).report wallMs)) ∧
    (¬ (Counters.tally (m.spent (w, c))).Fits →
      m.step pathEnv reads (.readUsage w c wallMs) = none ∧
      (∃ m', m.step pathEnv reads (.act w (.fail (.container c))) = some m' ∧
        (m'.box (w, c)).pc = .died) ∧
      ∀ x m', m.step pathEnv reads x = some m' → (m'.box (w, c)).pc = .readUsage ∨
        (m'.box (w, c)).pc = .died ∨ (m'.box (w, c)).pc = .killed) := by
  have hInv := inv_of_reachable hReach
  have hHas : (m.box (w, c)).pc.HasCgroups = true := by rw [hPc]; rfl
  have hRead : ∀ wallMs, readUsage reads (m.files .cpuacct (w, c)) (m.files .memory (w, c)) wallMs =
      if (Counters.tally (m.spent (w, c))).Fits
        then some ((Counters.tally (m.spent (w, c))).report wallMs) else none := by
    intro wallMs
    rw [hInv.files hHas, hInv.files hHas, Counters.readUsage_files]
  constructor
  · intro hFits
    replace hRead := (hRead wallMs).trans (if_pos hFits)
    generalize (Counters.tally (m.spent (w, c))).report wallMs = u at hRead
    obtain ⟨ids, hSys⟩ := Farm.inv_of_reachable hInv.farm w
    obtain ⟨v, hSees⟩ := (m.farm.among w ids).sees_total (m.farm.among w ids).view c
    have hPlace : (m.box (w, c)).pc.Alone := by simp [ContainerAt.Alone, hPc]
    have hAlone : (m.box (w, c)).slave = none := (hSys.boxes c v hSees).slave.eq_none hPlace
    obtain ⟨f, b, hFarm, hBox, hSlave, hNext, hBlock⟩ :=
      farm_readUsage pathEnv (f := m.farm) rfl hPc hHandled hAlone u
    obtain ⟨dirs, hFollow⟩ := follow_leaves (m := m) (w, c) hBox hSlave
      (by rcases hNext with h | h <;> simp [h]) (by rcases hNext with h | h <;> simp [h])
    refine ⟨{ m with farm := f, dirs }, ?_, ?_⟩
    · simp only [step, hRead, Option.bind_some, act, hFarm]
      exact hFollow
    · show ((f.worker w).box c).block = _
      rw [hBox]
      exact hBlock
  · intro hFits
    have hNone : ∀ wallMs, m.step pathEnv reads (.readUsage w c wallMs) = none := by
      intro wallMs
      simp only [step, (hRead wallMs).trans (if_neg hFits), Option.bind_none]
    refine ⟨hNone wallMs, reading_dies hPc, fun x m' hStep => ?_⟩
    refine hInv.reading_of_step hPc hStep fun wallMs' hSame => ?_
    rw [hSame, hNone] at hStep
    cases hStep

/-- The target ends, and its container is about to read its files. -/
def readingRun : List (MachineAct 1) :=
  chargedRun ++ [.act 0 (.exit 0 (.exited 0)), .act 0 (.container 0), .act 0 (.containerSigchld 0)]

theorem usage_of_readingRun :
    ∃ m m', run (step none bytewise) (initial 1 1000) readingRun = some m ∧
      m.step none bytewise (.readUsage 0 0 12) = some m' ∧
      (m'.box (0, 0)).block.task.timeUsageMs = 7 ∧
      (m'.box (0, 0)).block.task.memoryUsageKb = 400 ∧
      (m'.box (0, 0)).block.task.timeLimitExceeded = true := by
  obtain ⟨m, hRun⟩ : ∃ m, run (step none bytewise) (initial 1 1000) readingRun = some m :=
    Option.isSome_iff_exists.mp (by decide +kernel)
  have hPc : (m.box (0, 0)).pc = .readUsage :=
    of_run_map (f := fun m => (m.box (0, 0)).pc) (by decide +kernel) hRun
  have hHandled : (m.box (0, 0)).sigchld = none :=
    of_run_map (f := fun m => (m.box (0, 0)).sigchld) (by decide +kernel) hRun
  have hFits : decide (Counters.tally (m.spent (0, 0))).Fits = true :=
    of_run_map (f := fun m => decide (Counters.tally (m.spent (0, 0))).Fits) (by decide +kernel) hRun
  obtain ⟨m', hStep, hBlock⟩ :=
    (usage_of_reachable ⟨readingRun, hRun⟩ hPc hHandled 12).1 (of_decide_eq_true hFits)
  refine ⟨m, m', hRun, hStep, ?_⟩
  rw [hBlock]
  exact of_decide_eq_true (of_run_map (f := fun m =>
    let task := ((m.box (0, 0)).block.setUsage (m.box (0, 0)).serving
      ((Counters.tally (m.spent (0, 0))).report 12)).task
    decide (task.timeUsageMs = 7 ∧ task.memoryUsageKb = 400 ∧ task.timeLimitExceeded = true))
    (by decide +kernel) hRun)

/-- A tick of the timer that gets to its end. -/
theorem tick_act {cpuMs wallMs : Int64} (h : m.act pathEnv w (.tick c cpuMs wallMs) = some m') :
    (m.box (w, c)).pc = .waitForSlave ∧ ((m'.box (w, c)).pc = .readUsage ↔
      (m.box (w, c)).block.limitExceeded cpuMs wallMs = true) := by
  obtain ⟨s, -, hTick, -, hSelf, -⟩ := Farm.step_worker (act_step h).1
  have hBox : (m'.box (w, c)) = s.box c := congrArg (fun s => Sys.box s c) hSelf
  have hSee : (m.farm.see w).box c = m.box (w, c) := rfl
  simp only [Sys.step, Sys.tick, hSee] at hTick
  split at hTick
  · rename_i hPc
    refine ⟨hPc, ?_⟩
    split at hTick
    · rename_i hLimit
      obtain rfl := Option.some.inj hTick
      rw [hBox, Sys.setBox_box_self]
      exact iff_of_true rfl hLimit
    · rename_i hLimit
      obtain rfl := Option.some.inj hTick
      rw [hBox, hSee, hPc]
      exact iff_of_false (by decide) hLimit
  · cases hTick

/-- **A tick of the timer kills the processes of a run** exactly if these have used more
time than the task allows them, or more time has passed. -/
theorem tick_of_reachable (hReach : Reachable (step pathEnv reads) (initial n firstUid) m)
    {wallMs : Int64} (hTick : m.step pathEnv reads (.tick w c wallMs) = some m') :
    (m'.box (w, c)).pc = .readUsage ↔
      ((m.box (w, c)).block.task.timeLimitMs ≠ -1 ∧
        (m.box (w, c)).block.task.timeLimitMs <
          ((Counters.tally (m.spent (w, c))).report wallMs).timeUsageMs) ∨
      ((m.box (w, c)).block.task.wallTimeLimitMs ≠ -1 ∧
        (m.box (w, c)).block.task.wallTimeLimitMs < wallMs) := by
  have hInv := inv_of_reachable hReach
  simp only [step] at hTick
  split at hTick
  · rename_i hNone
    rw [(tick_act hTick).2]
    simp [Block.limitExceeded, hNone]
  · rename_i hLimit
    obtain ⟨cpuMs, hCpu, hAct⟩ := Option.bind_eq_some_iff.mp hTick
    obtain ⟨hPc, hKills⟩ := tick_act hAct
    have hHas : (m.box (w, c)).pc.HasCgroups = true := by rw [hPc]; rfl
    have hUsage : cpuMs = ((Counters.tally (m.spent (w, c))).report wallMs).timeUsageMs := by
      rw [hInv.files hHas, getTimeUsageMs, Counters.readMs_files rfl] at hCpu
      split at hCpu
      · exact (Option.some.inj hCpu).symm
      · cases hCpu
    rw [hKills, ← hUsage]
    simp [Block.limitExceeded, hLimit]

theorem tick_of_chargedRun :
    ∃ m m', run (step none bytewise) (initial 1 1000) chargedRun = some m ∧
      m.step none bytewise (.tick 0 0 10) = some m' ∧ (m'.box (0, 0)).pc = .readUsage := by
  obtain ⟨m, hRun⟩ : ∃ m, run (step none bytewise) (initial 1 1000) chargedRun = some m :=
    Option.isSome_iff_exists.mp (by decide +kernel)
  have hTick : (m.step none bytewise (.tick 0 0 10)).isSome = true :=
    of_run_map (f := fun m => (m.step none bytewise (.tick 0 0 10)).isSome) (by decide +kernel) hRun
  obtain ⟨m', hTick⟩ := Option.isSome_iff_exists.mp hTick
  have hOver : decide ((m.box (0, 0)).block.task.timeLimitMs ≠ -1 ∧
      (m.box (0, 0)).block.task.timeLimitMs <
        ((Counters.tally (m.spent (0, 0))).report 10).timeUsageMs) = true :=
    of_run_map (f := fun m => decide ((m.box (0, 0)).block.task.timeLimitMs ≠ -1 ∧
      (m.box (0, 0)).block.task.timeLimitMs <
        ((Counters.tally (m.spent (0, 0))).report 10).timeUsageMs)) (by decide +kernel) hRun
  exact ⟨m, m', hRun, hTick,
    (tick_of_reachable ⟨chargedRun, hRun⟩ hTick).mpr (.inl (of_decide_eq_true hOver))⟩

end Machine

end Libsbox
