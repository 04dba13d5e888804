import Libsbox.Protocol.Invariant
import Mathlib.Data.List.Perm.Basic

/-!
# libsbox — the ids of a worker

A worker takes an id for every container that it starts and puts back those of its
temporary containers. `Sys.held` are the ids that it has taken and not put back,
`Sys.unreaped` the containers that it has started and not waited for: `collect_results`
puts an id back before it waits for the container, and in between the container
lingers.

## Results

* `step_trades` — every step moves at most one id between the getter and the worker;
* `step_reaps`, `step_starts` — what a step does to the containers not waited for.
-/

namespace Libsbox

open CMemory

/-- The id of the container that is to be started. -/
def WorkerAt.hand : WorkerAt → List Uid
  | .startContainer _ _ id => [id]
  | _ => []

/-- The number of temporary containers that `collect_results` has waited for. -/
def WorkerAt.waited : WorkerAt → Nat
  | .putId i | .waitpid i => i
  | _ => 0

variable {pathEnv : Option Str} {s s' : Sys} {a : Act} {c : BoxId} {b b' : Box} {p : Option Party}

theorem Box.Moves.id_eq (h : b.Moves pathEnv s c p b') : b'.id = b.id := by
  cases h <;> rfl

namespace Sys

/-- The containers whose ids the worker has not put back. -/
def unreturned (s : Sys) : List BoxId := s.permanent ++ s.temporary.drop s.worker.returned

/-- The ids that the worker has taken and not put back. -/
def held (s : Sys) : List Uid := s.unreturned.map (fun c => (s.box c).id) ++ s.worker.hand

/-- The containers that the worker has started and not waited for. -/
def unreaped (s : Sys) : List BoxId := s.permanent ++ s.temporary.drop s.worker.waited

/-- The container whose id the worker has put back and for which it waits. -/
def lingering (s : Sys) : Option BoxId :=
  match s.worker with
  | .waitpid i => s.temporary[i]?
  | _ => none

/-- The containers of the worker are started, and no two of its records are one. -/
structure Born (s : Sys) : Prop where
  nodup : (s.permanent ++ s.temporary).Nodup
  started : ∀ c ∈ s.permanent ++ s.temporary, c < s.started

theorem born_initial (firstUid : Uid) : (initial firstUid).Born := ⟨List.nodup_nil, nofun⟩

-- ---------------------------------------------------------------------------
-- Ids
-- ---------------------------------------------------------------------------

theorem GoesOn.kept {w w' : WorkerAt} (h : s.GoesOn w w') :
    w'.hand = w.hand ∧ w'.returned = w.returned := by
  cases h <;> exact ⟨rfl, rfl⟩

/-- What a step makes of the ids in the getter and in the worker. -/
inductive Trades (s s' : Sys) : Prop where
  | keeps (hIds : s'.ids = s.ids) (hHeld : s'.held.Perm s.held)
  | gets (id : Uid) (hStack : s.ids.stack = id :: s'.ids.stack)
      (hElsewhere : s'.ids.elsewhere = s.ids.elsewhere) (hHeld : s'.held.Perm (id :: s.held))
  | puts (id : Uid) (hStack : s'.ids.stack = id :: s.ids.stack)
      (hElsewhere : s'.ids.elsewhere = s.ids.elsewhere) (hHeld : s.held.Perm (id :: s'.held))

theorem held_congr (hPermanent : s'.permanent = s.permanent) (hTemporary : s'.temporary = s.temporary)
    (hReturned : s'.worker.returned = s.worker.returned) (hHand : s'.worker.hand = s.worker.hand)
    (hId : ∀ c, (s'.box c).id = (s.box c).id) : s'.held = s.held := by
  unfold held unreturned
  rw [hPermanent, hTemporary, hReturned, hHand]
  simp only [hId]

theorem setBox_id (hId : b.id = (s.box c).id) (c' : BoxId) :
    ((s.setBox c b).box c').id = (s.box c').id := by
  rcases eq_or_ne c' c with rfl | hNe
  · rw [setBox_box_self, hId]
  · rw [setBox_box_ne s b hNe]

theorem newContainer_id_old (s : Sys) (id : Uid) (task : Task) (hBorn : c < s.started) :
    ((s.newContainer id task).box c).id = (s.box c).id :=
  congrArg Box.id (newContainer_box_ne s id task (Nat.ne_of_lt hBorn))

theorem newContainer_id_new (s : Sys) (id : Uid) (task : Task) :
    ((s.newContainer id task).box s.started).id = id :=
  congrArg Box.id (newContainer_box_self s id task)

theorem map_id_newContainer {cs : List BoxId} (id : Uid) (task : Task)
    (hBorn : ∀ c ∈ cs, c < s.started) :
    cs.map (fun c => ((s.newContainer id task).box c).id) = cs.map fun c => (s.box c).id :=
  List.map_congr_left fun c hMem => newContainer_id_old s id task (hBorn c hMem)

/-- The id in hand becomes that of the new container. -/
theorem held_startContainer (hBorn : s.Born) {i next : Nat} {id : Uid} (task : Task)
    (hWorker : s.worker = .startContainer i next id) {permanent temporary : List BoxId}
    {w : WorkerAt} (hHand : w.hand = []) (hReturned : w.returned = 0)
    (hLists : (permanent ++ temporary).Perm (s.started :: (s.permanent ++ s.temporary))) :
    { s.newContainer id task with permanent, temporary, worker := w : Sys }.held.Perm s.held := by
  have hHandOld : s.worker.hand = [id] := by rw [hWorker]; rfl
  have hReturnedOld : s.worker.returned = 0 := by rw [hWorker]; rfl
  show (List.map (fun c => ((s.newContainer id task).box c).id)
    (permanent ++ temporary.drop w.returned) ++ w.hand).Perm
    (List.map (fun c => (s.box c).id) (s.permanent ++ s.temporary.drop s.worker.returned) ++
      s.worker.hand)
  rw [hHand, hReturned, hHandOld, hReturnedOld, List.append_nil, List.drop_zero, List.drop_zero]
  have hNew := hLists.map fun c => ((s.newContainer id task).box c).id
  rw [List.map_cons, newContainer_id_new, map_id_newContainer id task hBorn.started] at hNew
  exact hNew.trans (List.perm_append_singleton _ _).symm

/-- A step that touches no id. -/
theorem Trades.quiet {w : WorkerAt} (hWorker : s.worker = w) (hIds : s'.ids = s.ids)
    (hPermanent : s'.permanent = s.permanent) (hTemporary : s'.temporary = s.temporary)
    (hReturned : s'.worker.returned = w.returned) (hHand : s'.worker.hand = w.hand)
    (hId : ∀ c, (s'.box c).id = (s.box c).id) : s.Trades s' := by
  subst hWorker
  exact .keeps hIds (.of_eq (held_congr hPermanent hTemporary hReturned hHand hId))

theorem WorkerMoves.trades (hBorn : s.Born) (hMoves : s.WorkerMoves s') : s.Trades s' := by
  cases hMoves with
  | dies => exact .quiet rfl rfl rfl rfl rfl rfl fun _ => rfl
  | goesOn hGoesOn =>
    exact .quiet rfl rfl rfl rfl hGoesOn.kept.2 hGoesOn.kept.1 fun _ => rfl
  | @getsId i next task id stack hWorker hTask hNone hStack =>
    refine .gets id hStack rfl ?_
    show (List.map _ (s.permanent ++ s.temporary.drop 0) ++ [id]).Perm
      (id :: (List.map _ (s.permanent ++ s.temporary.drop s.worker.returned) ++ s.worker.hand))
    rw [hWorker]
    show (List.map _ (s.permanent ++ s.temporary.drop 0) ++ [id]).Perm
      (id :: (List.map _ (s.permanent ++ s.temporary.drop 0) ++ []))
    rw [List.append_nil]
    exact List.perm_append_singleton _ _
  | @startsPermanent i next task id hWorker hTask hAllowed =>
    refine .keeps rfl (held_startContainer hBorn task hWorker rfl rfl ?_)
    rw [List.append_assoc]
    exact List.perm_middle
  | @startsTemporary i next task id hWorker hTask hAllowed =>
    refine .keeps rfl (held_startContainer hBorn task hWorker rfl rfl ?_)
    rw [← List.append_assoc]
    exact List.perm_append_singleton _ _
  | writes hWorker =>
    exact .quiet hWorker rfl rfl rfl rfl rfl (setBox_id rfl)
  | calls hWorker | asks hWorker =>
    exact .quiet hWorker rfl rfl rfl rfl rfl (setBox_id rfl)
  | reuses hWorker | resets hWorker | arrives hWorker | puts hWorker =>
    exact .quiet hWorker rfl rfl rfl rfl rfl fun _ => rfl
  | @putsId i c hWorker hTemporary =>
    refine .puts (s.box c).id rfl rfl ?_
    have hDrop : s.temporary.drop i = c :: s.temporary.drop (i + 1) := by
      obtain ⟨hLt, hGet⟩ := List.getElem?_eq_some_iff.mp hTemporary
      rw [List.drop_eq_getElem_cons hLt, hGet]
    show (List.map _ (s.permanent ++ s.temporary.drop s.worker.returned) ++ s.worker.hand).Perm
      ((s.box c).id :: (List.map _ (s.permanent ++ s.temporary.drop (i + 1)) ++ []))
    rw [hWorker]
    show (List.map _ (s.permanent ++ s.temporary.drop i) ++ []).Perm _
    rw [hDrop, List.append_nil, List.append_nil]
    exact List.perm_middle.map _
  | @answers i hWorker hTemporary =>
    refine .keeps rfl (.of_eq ?_)
    have hDrop : s.temporary.drop i = [] :=
      List.drop_eq_nil_iff.mpr (List.getElem?_eq_none_iff.mp hTemporary)
    show List.map _ (s.permanent ++ []) ++ [] =
      List.map _ (s.permanent ++ s.temporary.drop s.worker.returned) ++ s.worker.hand
    rw [hWorker]
    show _ = List.map _ (s.permanent ++ s.temporary.drop i) ++ []
    rw [hDrop]

/-- **A step moves at most one id** between the getter and the worker. Only the steps
of other workers do anything else to the getter. -/
theorem step_trades (hBorn : s.Born) (hOwn : a ≠ .othersGet ∧ ∀ id, a ≠ .othersPut id)
    (hStep : s.step pathEnv a = some s') : s.Trades s' := by
  cases hBox : a.box? with
  | some c =>
    rcases step_of_box hBox hStep with rfl | ⟨p, b, hMoves, rfl⟩
    · exact .quiet rfl rfl rfl rfl rfl rfl fun _ => rfl
    · exact .quiet rfl rfl rfl rfl rfl rfl (setBox_id hMoves.id_eq)
  | none =>
    cases step_turns hBox hStep with
    | @accepts tasks hAlive hWorker => exact .quiet hWorker rfl rfl rfl rfl rfl fun _ => rfl
    | worker hAlive hMoves => exact hMoves.trades hBorn
    | dies => exact WorkerMoves.dies.trades hBorn
    | othersGet => exact absurd rfl hOwn.1
    | othersPut => exact absurd rfl (hOwn.2 _)

-- ---------------------------------------------------------------------------
-- Containers
-- ---------------------------------------------------------------------------

/-- A container that has not been waited for has its id with the worker, or lingers. -/
theorem mem_unreaped : c ∈ s.unreaped ↔ c ∈ s.unreturned ∨ s.lingering = some c := by
  unfold unreaped unreturned lingering
  cases s.worker with
  | waitpid i =>
    show c ∈ s.permanent ++ s.temporary.drop i ↔
      c ∈ s.permanent ++ s.temporary.drop (i + 1) ∨ s.temporary[i]? = some c
    rw [List.mem_append, List.mem_append, or_assoc]
    refine or_congr_right ?_
    rcases Nat.lt_or_ge i s.temporary.length with hLt | hGe
    · rw [List.drop_eq_getElem_cons hLt, List.mem_cons, List.getElem?_eq_getElem hLt,
        Option.some_inj, or_comm, eq_comm]
    · rw [List.drop_eq_nil_iff.mpr hGe, List.drop_eq_nil_iff.mpr (by omega),
        List.getElem?_eq_none_iff.mpr hGe]
      simp
  | _ => simp [WorkerAt.waited, WorkerAt.returned]

theorem Born.workerMoves (h : s.Born) (hMoves : s.WorkerMoves s') : s'.Born := by
  have hFresh : s.started ∉ s.permanent ++ s.temporary := fun hMem =>
    Nat.lt_irrefl _ (h.started _ hMem)
  have hMore : ∀ cs : List BoxId, cs.Perm (s.started :: (s.permanent ++ s.temporary)) →
      cs.Nodup ∧ ∀ c ∈ cs, c < s.started + 1 := by
    intro cs hPerm
    refine ⟨hPerm.nodup_iff.mpr (List.nodup_cons.mpr ⟨hFresh, h.nodup⟩), fun c hMem => ?_⟩
    rcases List.mem_cons.mp (hPerm.mem_iff.mp hMem) with rfl | hOld
    · exact Nat.lt_succ_self _
    · exact Nat.lt_succ_of_lt (h.started c hOld)
  cases hMoves with
  | startsPermanent =>
    have hNew := hMore (s.permanent ++ [s.started] ++ s.temporary) (by
      rw [List.append_assoc]
      exact List.perm_middle)
    exact ⟨hNew.1, hNew.2⟩
  | startsTemporary =>
    have hNew := hMore (s.permanent ++ (s.temporary ++ [s.started])) (by
      rw [← List.append_assoc]
      exact List.perm_append_singleton _ _)
    exact ⟨hNew.1, hNew.2⟩
  | answers =>
    refine ⟨?_, fun c hMem => h.started c ?_⟩
    · show (s.permanent ++ []).Nodup
      rw [List.append_nil]
      exact h.nodup.of_append_left
    · change c ∈ s.permanent ++ [] at hMem
      rw [List.append_nil] at hMem
      exact List.mem_append_left _ hMem
  | _ => exact ⟨h.nodup, h.started⟩

theorem Born.step (h : s.Born) (hStep : s.step pathEnv a = some s') : s'.Born := by
  cases hBox : a.box? with
  | some c =>
    rcases step_of_box hBox hStep with rfl | ⟨p, b, -, rfl⟩
    · exact h
    · exact ⟨h.nodup, h.started⟩
  | none =>
    cases step_turns hBox hStep with
    | worker hAlive hMoves => exact h.workerMoves hMoves
    | _ => exact ⟨h.nodup, h.started⟩

/-- The step starts a container with the id `id`. -/
def StartsAt (s : Sys) (a : Act) (id : Uid) : Prop :=
  a = .worker ∧ ∃ i next, s.worker = .startContainer i next id

/-- No container comes to those that the worker has to wait for. -/
def Reaps (s s' : Sys) : Prop :=
  ∀ c ∈ s'.unreaped, c ∈ s.unreaped ∧ (s'.box c).id = (s.box c).id

/-- One comes to them, with the id `id`. -/
structure Starts (s s' : Sys) (id : Uid) : Prop where
  unreaped : ∀ c, c ∈ s'.unreaped ↔ c = s.started ∨ c ∈ s.unreaped
  old : ∀ c ∈ s.unreaped, (s'.box c).id = (s.box c).id
  new : (s'.box s.started).id = id

theorem Reaps.of_lists {w : WorkerAt} (hWorker : s.worker = w)
    (hPermanent : s'.permanent = s.permanent) (hTemporary : s'.temporary = s.temporary)
    (hWaited : w.waited ≤ s'.worker.waited) (hId : ∀ c, (s'.box c).id = (s.box c).id) :
    s.Reaps s' := by
  intro c hMem
  refine ⟨?_, hId c⟩
  unfold unreaped at hMem ⊢
  rw [hPermanent, hTemporary] at hMem
  rw [hWorker]
  rcases List.mem_append.mp hMem with hOld | hOld
  · exact List.mem_append_left _ hOld
  · exact List.mem_append_right _ (List.drop_subset_drop_left _ hWaited hOld)

theorem WorkerMoves.reaps (hMoves : s.WorkerMoves s') (hNot : ∀ id, ¬ s.StartsAt .worker id) :
    s.Reaps s' := by
  cases hMoves with
  | dies => exact .of_lists rfl rfl rfl (le_refl _) fun _ => rfl
  | goesOn hGoesOn =>
    refine .of_lists rfl rfl rfl ?_ fun _ => rfl
    generalize s.worker = w at hGoesOn
    cases hGoesOn with
    | waitpid => exact Nat.le_succ _
    | _ => exact le_refl _
  | startsPermanent hWorker | startsTemporary hWorker =>
    exact absurd ⟨rfl, _, _, hWorker⟩ (hNot _)
  | writes hWorker => exact .of_lists hWorker rfl rfl (le_refl _) (setBox_id rfl)
  | calls hWorker | asks hWorker => exact .of_lists hWorker rfl rfl (le_refl _) (setBox_id rfl)
  | reuses hWorker | getsId hWorker | resets hWorker | arrives hWorker | puts hWorker
  | putsId hWorker => exact .of_lists hWorker rfl rfl (le_refl _) fun _ => rfl
  | answers hWorker hTemporary =>
    intro c hMem
    change c ∈ s.permanent ++ [] at hMem
    rw [List.append_nil] at hMem
    exact ⟨List.mem_append_left _ hMem, rfl⟩

/-- **A step that starts no container** leaves the others to wait for. -/
theorem step_reaps (hNot : ∀ id, ¬ s.StartsAt a id) (hStep : s.step pathEnv a = some s') :
    s.Reaps s' := by
  cases hBox : a.box? with
  | some c =>
    rcases step_of_box hBox hStep with rfl | ⟨p, b, hMoves, rfl⟩
    · exact fun c hMem => ⟨hMem, rfl⟩
    · exact .of_lists rfl rfl rfl (le_refl _) (setBox_id hMoves.id_eq)
  | none =>
    cases step_turns hBox hStep with
    | accepts hAlive hWorker => exact .of_lists hWorker rfl rfl (le_refl _) fun _ => rfl
    | worker hAlive hMoves => exact hMoves.reaps hNot
    | dies | othersGet | othersPut => exact fun c hMem => ⟨hMem, rfl⟩

/-- **A step that starts one** adds it, with the id that the worker has in hand. -/
theorem step_starts (hBorn : s.Born) {id : Uid} (hStarts : s.StartsAt a id)
    (hStep : s.step pathEnv a = some s') : s.Starts s' id := by
  obtain ⟨rfl, i, next, hWorker⟩ := hStarts
  have hUnreaped : s.unreaped = s.permanent ++ s.temporary := by
    rw [unreaped, hWorker]
    rfl
  have hOld : ∀ task, ∀ c ∈ s.unreaped, ((s.newContainer id task).box c).id = (s.box c).id :=
    fun task c hMem => newContainer_id_old s id task (hBorn.started c (hUnreaped ▸ hMem))
  simp only [step, workerStep, hWorker] at hStep
  split at hStep
  · split at hStep
    · cases hStep
    · rename_i task hTask
      obtain rfl := Option.some.inj hStep
      rw [startContainer]
      split
      · refine ⟨fun c => ?_, hOld task, newContainer_id_new s id task⟩
        show c ∈ s.permanent ++ [s.started] ++ s.temporary ↔ _
        rw [hUnreaped]
        simp only [List.mem_append, List.mem_singleton]
        tauto
      · refine ⟨fun c => ?_, hOld task, newContainer_id_new s id task⟩
        show c ∈ s.permanent ++ (s.temporary ++ [s.started]) ↔ _
        rw [hUnreaped]
        simp only [List.mem_append, List.mem_singleton]
        tauto
  · cases hStep

end Sys

end Libsbox
