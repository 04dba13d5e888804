import Libsbox.Cgroups.Accounting

/-!
# libsbox — cgroups that are left behind

A container removes its groups before it answers, and then they are empty. One that dies
tries to remove them as they are, and one that is killed does not try. What is left
behind then stays: its id does not come back to the getter, and the next daemon on this
machine finds `libsbox` not empty and does not start.

## Results

* `Machine.removes_of_reachable` — no group is in the way of an answer;
* `Machine.quiet_of_reachable` — there is no group where no request is under way;
* `Machine.leftover_iff` — which groups are left behind, and for good.
-/

namespace Libsbox

open CMemory Runs

namespace Machine

variable {n : Nat} {pathEnv : Option Str} {reads : Chunks} {firstUid : Uid}
  {m m' m'' : Machine n} {who who' : Owner n} {w : Fin n} {c : BoxId} {a : Act}
  {ctl : Controller} {g : Cgroup n}

-- ---------------------------------------------------------------------------
-- Groups that are removed
-- ---------------------------------------------------------------------------

/-- Without a slave there is nobody in the group. -/
theorem Kept.tasks_nil (h : m.Kept ctl who g) (hSlave : (m.box who).slave = none) : g.tasks = [] :=
  List.eq_nil_iff_forall_not_mem.mpr fun t hMem => (h.tasks t hMem).2.1 hSlave

theorem Inv.slave_none (h : m.Inv pathEnv firstUid)
    (hPc : (m.box who).pc ≠ .startBarrier ∧ (m.box who).pc ≠ .awaitStart ∧
      (m.box who).pc ≠ .waitForSlave) : (m.box who).slave = none := by
  obtain ⟨ids, hInv⟩ := Farm.inv_of_reachable h.farm who.1
  obtain ⟨v, hSees⟩ := (m.farm.among who.1 ids).sees_total (m.farm.among who.1 ids).view who.2
  have hHas : (m.box who).HasSlave v := (hInv.boxes who.2 v hSees).slave
  cases hSlave : (m.box who).slave with
  | none => rfl
  | some sl =>
    rcases hHas.pc_of_some hSlave with hBox | hBox | hBox
    · exact absurd hBox hPc.1
    · exact absurd hBox hPc.2.1
    · exact absurd hBox hPc.2.2

/-- **No group is in the way of an answer**: where a container comes to the end of its round,
both of its groups are there and empty, and it removes them. -/
theorem removes_of_reachable (hReach : Reachable (step pathEnv reads) (initial n firstUid) m)
    (hPc : (m.box (w, c)).pc = .umountBinds) :
    (∀ ctl, ∃ g, m.group ctl (w, c) = some g ∧ g.tasks = []) ∧
      ∃ m', m.step pathEnv reads (.act w (.container c)) = some m' ∧
        (m'.box (w, c)).pc = .resultsBarrier ∧ ∀ ctl, m'.group ctl (w, c) = none := by
  have hInv := inv_of_reachable hReach
  have hHas : (m.box (w, c)).pc.HasCgroups = true := by rw [hPc]; rfl
  have hSlave : (m.box (w, c)).slave = none := hInv.slave_none (by simp [hPc])
  have hGroups : ∀ ctl, ∃ g, m.group ctl (w, c) = some g ∧ g.tasks = [] := fun ctl => by
    obtain ⟨g, hGroup⟩ := hInv.has ctl (w, c) hHas
    have hKept := (hInv.owner (hInv.engaged hHas) hGroup).2
    exact ⟨g, hGroup, hKept.tasks_nil hSlave⟩
  refine ⟨hGroups, ?_⟩
  have hSee : (m.farm.see w).step pathEnv (.container c) =
      some ((m.farm.see w).setBox c { m.box (w, c) with pc := .resultsBarrier }) := by
    have hBox : (m.farm.see w).box c = m.box (w, c) := rfl
    simp only [Sys.step, Sys.containerStep, hBox, hPc]
  obtain ⟨f, hStep, hWorker⟩ := Farm.step_of_see (Farm.own_of_box rfl) hSee
  have hNew : (f.worker w).box c = { m.box (w, c) with pc := .resultsBarrier } := by
    rw [hWorker, Sys.setBox_box_self]
  have hCall : (m.box (w, c)).cgroupCall ((f.worker w).box c) = .remove := by
    rw [hNew]
    simp [Box.cgroupCall, hPc]
  have hApply : ∀ ctl, CgroupCall.remove.apply (w, c) ctl (m.group ctl (w, c)) = some none :=
    fun ctl => by
      obtain ⟨g, hGroup, hEmpty⟩ := hGroups ctl
      have hRemovable : Cgroup.Removable (m.group ctl (w, c)) := by
        rw [hGroup]
        intro g' hMem
        obtain rfl := Option.some.inj hMem
        exact hEmpty
      rw [CgroupCall.apply, if_pos hRemovable]
  obtain ⟨dirs, hFollow⟩ := follow_some (m := m) (f := f) (w, c) fun ctl =>
    ⟨none, hCall ▸ hApply ctl⟩
  have hAct : m.act pathEnv w (.container c) = some { m with farm := f, dirs } := by
    simp only [act, hStep, Option.bind_some]
    exact hFollow
  refine ⟨{ m with farm := f, dirs }, hAct, congrArg Box.pc hNew, fun ctl => ?_⟩
  obtain ⟨g, hDirs, hGone⟩ := act_follow rfl hAct
  have hGone' := hGone ctl
  change ((m.box (w, c)).cgroupCall ((f.worker w).box c)).apply _ _ _ = _ at hGone'
  rw [hCall, hApply] at hGone'
  have hId : ((f.worker w).box c).id = (m.box (w, c)).id := by rw [hNew]
  show dirs ctl ((f.worker w).box c).id = none
  change dirs = _ at hDirs
  rw [hDirs, setGroup_apply, if_pos hId]
  exact (Option.some.inj hGone').symm

theorem removes_of_readingRun :
    ∃ m m', run (step none bytewise) (initial 1 1000) (readingRun ++ [.readUsage 0 0 12]) = some m ∧
      m.step none bytewise (.act 0 (.container 0)) = some m' ∧
      ∀ ctl, m'.group ctl (0, 0) = none := by
  obtain ⟨m, hRun⟩ :
      ∃ m, run (step none bytewise) (initial 1 1000) (readingRun ++ [.readUsage 0 0 12]) = some m :=
    Option.isSome_iff_exists.mp (by decide +kernel)
  have hPc : (m.box (0, 0)).pc = .umountBinds :=
    of_run_map (f := fun m => (m.box (0, 0)).pc) (by decide +kernel) hRun
  obtain ⟨-, m', hStep, -, hGone⟩ := removes_of_reachable ⟨_, hRun⟩ hPc
  exact ⟨m, m', hRun, hStep, hGone⟩

/-- **There is no group where no worker has a request under way**, so that a daemon that ends
there leaves nothing behind. -/
theorem quiet_of_reachable (hReach : Reachable (step pathEnv reads) (initial n firstUid) m)
    (hQuiet : ∀ w, (m.farm.worker w).worker = .accept) (ctl : Controller) :
    cgroupInitOk m.dirs ctl := by
  intro id
  cases hDir : m.dirs ctl id with
  | none => rfl
  | some g =>
    obtain ⟨who, ⟨-, j, hEngaged⟩, -⟩ := (inv_of_reachable hReach).kept ctl id g hDir
    exact absurd (hQuiet who.1) hEngaged.ne_accept

theorem quiet_of_servedRun :
    ∃ m, run (step none bytewise) (initial 1 1000) (readingRun ++ [.readUsage 0 0 12] ++
        ((Sys.requestRun {}).drop 33).map (.act 0)) = some m ∧ cgroupInitOk m.dirs .memory := by
  obtain ⟨m, hRun⟩ : ∃ m, run (step none bytewise) (initial 1 1000) (readingRun ++
      [.readUsage 0 0 12] ++ ((Sys.requestRun {}).drop 33).map (.act 0)) = some m :=
    Option.isSome_iff_exists.mp (by decide +kernel)
  have hFirst : (m.farm.worker 0).worker = .accept :=
    of_run_map (f := fun m => (m.farm.worker 0).worker) (by decide +kernel) hRun
  refine ⟨m, hRun, quiet_of_reachable ⟨_, hRun⟩ (fun w => ?_) .memory⟩
  rw [Subsingleton.elim w 0]
  exact hFirst

-- ---------------------------------------------------------------------------
-- Groups that are left behind
-- ---------------------------------------------------------------------------

/-- The container has ended and has not answered. -/
def Dead (m : Machine n) (who : Owner n) : Prop :=
  ((m.box who).pc = .died ∨ (m.box who).pc = .killed) ∧ m.farm.Engaged who

theorem Dead.hasCgroups (h : m.Dead who) : (m.box who).pc.HasCgroups = false := by
  rcases h.1 with hPc | hPc <;> rw [hPc] <;> rfl

/-- The group of a container that has ended is empty. -/
theorem Inv.dead_empty (h : m.Inv pathEnv firstUid) (hDead : m.Dead who) (ctl : Controller) :
    ∀ g, m.group ctl who = some g → g.tasks = [] := by
  intro g hGroup
  refine (h.owner hDead.2 hGroup).2.tasks_nil (h.slave_none ?_)
  rcases hDead.1 with hPc | hPc <;> simp [hPc]

theorem leave_of_empty {o : Option (Cgroup n)} (h : ∀ g, o = some g → g.tasks = []) (who : Owner n) :
    o.map (Cgroup.leave who) = o := by
  cases o with
  | none => rfl
  | some g =>
    have hEmpty := h g rfl
    rw [Option.map_some, Cgroup.leave, hEmpty]
    obtain ⟨tasks, charged, limit⟩ := g
    obtain rfl : tasks = [] := hEmpty
    rfl

/-- **Nobody touches what is left behind.** -/
theorem Inv.dead_act (h : m.Inv pathEnv firstUid) (hDead : m.Dead who)
    (hAct : m.act pathEnv w a = some m') :
    m'.Dead who ∧ ∀ ctl, m'.group ctl who = m.group ctl who := by
  obtain ⟨hStep, hLog⟩ := act_step hAct
  cases hBox : a.box? with
  | none =>
    have hTurned := Farm.turned_of_step h.farm hBox hStep
    obtain ⟨hEngaged, hStill⟩ := hTurned.engaged who hDead.2
    have hPc : (m'.box who).pc = (m.box who).pc := hStill.pc
    have hId : (m'.box who).id = (m.box who).id := hStill.id
    refine ⟨⟨hPc ▸ hDead.1, hEngaged⟩, fun ctl => ?_⟩
    rw [group, act_dirs hBox hAct, hId]
    rfl
  | some c =>
    obtain ⟨g, hDirs, hCall⟩ := act_follow hBox hAct
    have hMoved := Farm.moved_of_step h.farm hBox hStep
    generalize (w, c) = mover at hDirs hCall hMoved
    have hEnded : (m.box who).Ended := .inr hDead.1
    have hSame : m'.box who = m.box who := by
      rcases eq_or_ne who mover with rfl | hNe
      · exact hMoved.ended hEnded
      · exact hMoved.others who hNe
    have hEngaged : m'.farm.Engaged who :=
      hMoved.engaged who hDead.2 fun hEq => .inr (hEq ▸ hEnded)
    refine ⟨⟨hSame ▸ hDead.1, hEngaged⟩, fun ctl => ?_⟩
    rw [group, hDirs, setGroup_apply, hSame]
    split
    · rename_i hId
      -- another container with this id does not have to answer
      have hIdle : (m.box mover).pc.HasCgroups = false ∧ (m.box mover).pc ≠ .createCgroups := by
        rcases eq_or_ne who mover with rfl | hNe
        · refine ⟨hDead.hasCgroups, ?_⟩
          rcases hDead.1 with hPc | hPc <;> simp [hPc]
        · have hNot : ¬ m.farm.Engaged mover := fun hEngaged =>
            hNe (h.unique hDead.2 hEngaged hId)
          refine ⟨Bool.eq_false_iff.mpr fun hPc => hNot (h.engaged hPc), fun hPc => hNot ?_⟩
          exact Farm.engaged_of_serving h.farm (.inr (.inl hPc))
      have hShared : m.group ctl mover = m.group ctl who := by rw [group, ← hId, group]
      have hApply := hCall ctl
      rw [hShared] at hApply
      have hRegroups : (m.box mover).Regroups (m'.box mover) := hMoved.regroups
      rcases hRegroups.idle_call hIdle.1 hIdle.2 with hEq | hEq
      · rw [hEq] at hApply
        exact (Option.some.inj hApply).symm.trans (leave_of_empty (h.dead_empty hDead ctl) mover)
      · rw [hEq] at hApply
        exact (Option.some.inj hApply).symm
    · rfl

theorem Inv.dead_charge (h : m.Inv pathEnv firstUid) (hDead : m.Dead who) {x : Charge}
    (hCharge : m.chargeTo who' x = some m') :
    m'.Dead who ∧ ∀ ctl, m'.group ctl who = m.group ctl who := by
  obtain ⟨g, hGroup, hMem, rfl⟩ := chargeTo_eq hCharge
  refine ⟨hDead, fun ctl => ?_⟩
  show Function.update m.dirs x.controller _ ctl (m.box who).id = m.dirs ctl (m.box who).id
  by_cases hCtl : ctl = x.controller
  · subst hCtl
    rw [Function.update_self]
    refine Function.update_of_ne (fun hId => ?_) ..
    have hShared : m.group x.controller who = some g := by rw [group, hId, ← group, hGroup]
    have hEmpty := h.dead_empty hDead _ g hShared
    rw [hEmpty] at hMem
    cases hMem
  · rw [Function.update_of_ne hCtl]

/-- **A step leaves what is left behind.** -/
theorem Inv.dead_step {x : MachineAct n} (h : m.Inv pathEnv firstUid) (hDead : m.Dead who)
    (hStep : m.step pathEnv reads x = some m') :
    m'.Dead who ∧ ∀ ctl, m'.group ctl who = m.group ctl who := by
  cases x with
  | act w a =>
    simp only [Machine.step] at hStep
    split at hStep
    · cases hStep
    · exact h.dead_act hDead hStep
  | tick w c wallMs =>
    simp only [Machine.step] at hStep
    split at hStep
    · exact h.dead_act hDead hStep
    · obtain ⟨cpuMs, -, hAct⟩ := Option.bind_eq_some_iff.mp hStep
      exact h.dead_act hDead hAct
  | readUsage w c wallMs =>
    obtain ⟨u, -, hAct⟩ := Option.bind_eq_some_iff.mp hStep
    exact h.dead_act hDead hAct
  | charge w c x => exact h.dead_charge hDead hStep
  | empties w c =>
    simp only [Machine.step] at hStep
    split at hStep
    · obtain rfl := Option.some.inj hStep
      refine ⟨hDead, fun ctl => ?_⟩
      show m.setGroup (w, c) (fun ctl => (m.group ctl (w, c)).map (Cgroup.leave (w, c))) ctl
        (m.box who).id = m.group ctl who
      rw [setGroup_apply]
      split
      · rename_i hId
        have hShared : m.group ctl (w, c) = m.group ctl who := by rw [group, ← hId, group]
        rw [hShared]
        exact leave_of_empty (h.dead_empty hDead ctl) _
      · rfl
    · cases hStep

/-- **What is left behind stays**, whatever happens after. -/
theorem Inv.dead_run {acts : List (MachineAct n)} (h : m.Inv pathEnv firstUid) (hDead : m.Dead who)
    (hRun : run (Machine.step pathEnv reads) m acts = some m') :
    ∀ ctl, m'.group ctl who = m.group ctl who := by
  have hEnd : m'.Inv pathEnv firstUid ∧ m'.Dead who ∧ ∀ ctl, m'.group ctl who = m.group ctl who := by
    refine invariant_of_reachable (I := fun m' : Machine n => m'.Inv pathEnv firstUid ∧ m'.Dead who ∧
      ∀ ctl, m'.group ctl who = m.group ctl who) ?_ ⟨h, hDead, fun _ => rfl⟩ ⟨acts, hRun⟩
    rintro m₁ x m₂ ⟨hInv, hDead, hSame⟩ hStep
    obtain ⟨hDead', hSame'⟩ := hInv.dead_step hDead hStep
    exact ⟨hInv.step hStep, hDead', fun ctl => (hSame' ctl).trans (hSame ctl)⟩
  exact hEnd.2.2

theorem not_hasCgroups_of_ended {b : Box} (h : b.Ended) : ¬ b.pc.HasCgroups = true := by
  rcases h with hPc | hPc | hPc <;> rw [hPc] <;> exact Bool.false_ne_true

/-- **How a container with groups ends**: it removes the empty ones, unless it is killed. -/
theorem Inv.ends_act (h : m.Inv pathEnv firstUid) (hPc : (m.box who).pc.HasCgroups = true)
    (hEnds : (m'.box who).Ended) (hAct : m.act pathEnv w a = some m') :
    m'.Dead who ∧ ∀ ctl, m'.group ctl who ≠ none ↔ (m'.box who).pc = .killed ∨
      ∃ g, m.group ctl who = some g ∧ g.tasks ≠ [] := by
  obtain ⟨hStep, -⟩ := act_step hAct
  have hEngaged := h.engaged hPc
  cases hBox : a.box? with
  | none =>
    have hPcEq : (m'.box who).pc = (m.box who).pc :=
      ((Farm.turned_of_step h.farm hBox hStep).engaged who hEngaged).2.pc
    exact absurd (hPcEq ▸ hPc) (not_hasCgroups_of_ended hEnds)
  | some c =>
    obtain ⟨g, hDirs, hCall⟩ := act_follow hBox hAct
    have hMoved := Farm.moved_of_step h.farm hBox hStep
    generalize (w, c) = mover at hDirs hCall hMoved
    rcases eq_or_ne who mover with rfl | hNe
    · have hEngaged' : m'.farm.Engaged who := hMoved.engaged who hEngaged fun _ => .inl hPc
      have hId : (m'.box who).id = (m.box who).id := hMoved.id
      have hRegroups : (m.box who).Regroups (m'.box who) := hMoved.regroups
      have hGroup : ∀ ctl, m'.group ctl who = g ctl := fun ctl => by
        rw [group, hDirs, setGroup_apply, if_pos hId]
      cases hRegroups with
      | idle hOld =>
        rw [hPc] at hOld
        cases hOld
      | creates hOld =>
        rw [hOld] at hPc
        cases hPc
      | enters _ hNew | leaves _ hNew | stays _ hNew =>
        exact absurd hNew (not_hasCgroups_of_ended hEnds)
      | dies hOld hNew hEq =>
        refine ⟨⟨.inl hNew, hEngaged'⟩, fun ctl => ?_⟩
        obtain ⟨g₀, hOldGroup⟩ := h.has ctl who hPc
        have hApply := hCall ctl
        rw [hEq, hOldGroup] at hApply
        rw [hGroup, ← Option.some.inj hApply, hOldGroup, hNew]
        -- what `_die` finds empty it removes
        by_cases hEmpty : g₀.tasks = []
        · have hRemovable : Cgroup.Removable (some g₀) := fun g' hMem => by
            obtain rfl := Option.some.inj hMem
            exact hEmpty
          rw [Cgroup.die, if_pos hRemovable]
          simp [hEmpty]
        · have hKept : ¬ Cgroup.Removable (some g₀) := fun hRemovable => hEmpty (hRemovable g₀ rfl)
          rw [Cgroup.die, if_neg hKept]
          simp [hEmpty]
      | killed hOld hNew hEq =>
        refine ⟨⟨.inr hNew, hEngaged'⟩, fun ctl => ?_⟩
        obtain ⟨g₀, hOldGroup⟩ := h.has ctl who hPc
        have hApply := hCall ctl
        rw [hEq, hOldGroup] at hApply
        rw [hGroup, ← Option.some.inj hApply]
        simp [hNew]
      | removes hOld hNew =>
        rcases hEnds with hEnd | hEnd | hEnd <;> rw [hNew] at hEnd <;> cases hEnd
    · have hSame : m'.box who = m.box who := hMoved.others who hNe
      exact absurd hPc (hSame ▸ not_hasCgroups_of_ended hEnds)

theorem Inv.ends_step {x : MachineAct n} (h : m.Inv pathEnv firstUid)
    (hPc : (m.box who).pc.HasCgroups = true) (hEnds : (m'.box who).Ended)
    (hStep : m.step pathEnv reads x = some m') :
    m'.Dead who ∧ ∀ ctl, m'.group ctl who ≠ none ↔ (m'.box who).pc = .killed ∨
      ∃ g, m.group ctl who = some g ∧ g.tasks ≠ [] := by
  have hNot : ∀ f, f = m.farm → f.box who ≠ m'.box who := by
    rintro f rfl hSame
    exact not_hasCgroups_of_ended hEnds (hSame ▸ hPc)
  cases x with
  | act w a =>
    simp only [Machine.step] at hStep
    split at hStep
    · cases hStep
    · exact h.ends_act hPc hEnds hStep
  | tick w c wallMs =>
    simp only [Machine.step] at hStep
    split at hStep
    · exact h.ends_act hPc hEnds hStep
    · obtain ⟨cpuMs, -, hAct⟩ := Option.bind_eq_some_iff.mp hStep
      exact h.ends_act hPc hEnds hAct
  | readUsage w c wallMs =>
    obtain ⟨u, -, hAct⟩ := Option.bind_eq_some_iff.mp hStep
    exact h.ends_act hPc hEnds hAct
  | charge w c x =>
    obtain ⟨g, -, -, rfl⟩ := chargeTo_eq hStep
    exact absurd rfl (hNot m.farm rfl)
  | empties w c =>
    simp only [Machine.step] at hStep
    split at hStep
    · obtain rfl := Option.some.inj hStep
      exact absurd rfl (hNot m.farm rfl)
    · cases hStep

/-- **Which groups are left behind**, and for good: those of a container that is killed, and
of one that dies while a process is in them. The others are gone, and nobody makes a group
of this id again while the daemon runs. -/
theorem leftover_iff {x : MachineAct n} {acts : List (MachineAct n)}
    (hReach : Reachable (step pathEnv reads) (initial n firstUid) m)
    (hPc : (m.box who).pc.HasCgroups = true) (hStep : m.step pathEnv reads x = some m')
    (hEnds : (m'.box who).Ended) (hRun : run (step pathEnv reads) m' acts = some m'')
    (ctl : Controller) :
    m''.group ctl who ≠ none ↔ (m'.box who).pc = .killed ∨
      ∃ g, m.group ctl who = some g ∧ g.tasks ≠ [] := by
  have hInv := inv_of_reachable hReach
  obtain ⟨hDead, hLeft⟩ := hInv.ends_step hPc hEnds hStep
  rw [(hInv.step hStep).dead_run hDead hRun ctl]
  exact hLeft ctl

/-- A container dies while its target runs. -/
theorem leftover_of_chargedRun :
    ∃ m m', run (step none bytewise) (initial 1 1000) chargedRun = some m ∧
      m.step none bytewise (.act 0 (.fail (.container 0))) = some m' ∧
      m'.group .memory (0, 0) ≠ none := by
  obtain ⟨m, hRun⟩ : ∃ m, run (step none bytewise) (initial 1 1000) chargedRun = some m :=
    Option.isSome_iff_exists.mp (by decide +kernel)
  have hPc : (m.box (0, 0)).pc = .waitForSlave :=
    of_run_map (f := fun m => (m.box (0, 0)).pc) (by decide +kernel) hRun
  obtain ⟨m', hStep⟩ : ∃ m', m.step none bytewise (.act 0 (.fail (.container 0))) = some m' :=
    Option.isSome_iff_exists.mp (of_run_map
      (f := fun m => (m.step none bytewise (.act 0 (.fail (.container 0)))).isSome)
      (by decide +kernel) hRun)
  have hRun' : run (step none bytewise) (initial 1 1000)
      (chargedRun ++ [.act 0 (.fail (.container 0))]) = some m' := by
    rw [run_append, hRun, Option.bind_some, run, hStep]
    rfl
  have hEnds : (m'.box (0, 0)).Ended :=
    .inr (.inl (of_run_map (f := fun m => (m.box (0, 0)).pc) (by decide +kernel) hRun'))
  have hFilled : decide (((m.group .memory (0, 0)).map Cgroup.tasks) = some [(0, 0)]) = true :=
    of_run_map (f := fun m => decide (((m.group .memory (0, 0)).map Cgroup.tasks) = some [(0, 0)]))
      (by decide +kernel) hRun
  obtain ⟨g, hGroup, hTasks⟩ := Option.map_eq_some_iff.mp (of_decide_eq_true hFilled)
  have hHere : run (step none bytewise) m' [] = some m' := rfl
  have hLeft := leftover_iff ⟨_, hRun⟩ (by rw [hPc]; rfl) hStep hEnds hHere .memory
  refine ⟨m, m', hRun, hStep, hLeft.mpr (.inr ⟨g, hGroup, ?_⟩)⟩
  rw [hTasks]
  exact List.cons_ne_nil _ _

end Machine

end Libsbox
