import Libsbox.Ids.Farm

/-!
# libsbox — a worker among others

What holds of one worker, whoever else takes ids and puts them back, holds of each
worker of a daemon: with the ids that the others hold as those that are elsewhere, it
runs as the worker that has been looked at alone.

## Results

* `step_withElsewhere` — a worker's own steps do not look at what others hold;
* `reachable_among` — every worker of a reachable daemon is in a reachable state of its own.
-/

namespace Libsbox

open CMemory Runs Pool

namespace Sys

variable {pathEnv : Option Str} {s s' : Sys} {a : Act} {c : BoxId}

/-- The worker where others hold `ids`. -/
def withElsewhere (s : Sys) (ids : List Uid) : Sys := { s with ids := ⟨s.ids.stack, ids⟩ }

/-- A function of a choice, where the two choices are the same. -/
theorem ite_eq_of_eq {σ τ : Type} {p : Prop} {d d' : Decidable p} {f : σ → τ} {x y : σ} {x' y' : τ}
    (hThen : x' = f x) (hElse : y' = f y) : @ite τ p d x' y' = f (@ite σ p d' x y) := by
  by_cases hp : p
  · rw [if_pos hp, if_pos hp, hThen]
  · rw [if_neg hp, if_neg hp, hElse]

theorem getId_withElsewhere (s : Sys) (ids : List Uid) (i next : Nat) :
    (s.withElsewhere ids).getId i next = (s.getId i next).withElsewhere ids := by
  have hStack : (s.withElsewhere ids).ids.stack = s.ids.stack := rfl
  unfold getId
  rw [hStack]
  cases s.ids.stack with
  | nil => rfl
  | cons id stack => rfl

theorem prepareContainer_withElsewhere (s : Sys) (ids : List Uid) (i next : Nat) (task : Task) :
    (s.withElsewhere ids).prepareContainer i next task =
      (s.prepareContainer i next task).withElsewhere ids := by
  have hPermanent : (s.withElsewhere ids).permanent = s.permanent := rfl
  unfold prepareContainer
  rw [hPermanent, getId_withElsewhere]
  split_ifs
  · cases s.permanent[next]? with
    | none => rfl
    | some c => rfl
  · rfl

theorem startContainer_withElsewhere (s : Sys) (ids : List Uid) (i next : Nat) (id : Uid)
    (task : Task) : (s.withElsewhere ids).startContainer i next id task =
      (s.startContainer i next id task).withElsewhere ids := by
  unfold startContainer
  split_ifs
  · rfl
  · rfl

theorem workerStep_withElsewhere (s : Sys) (ids : List Uid) :
    (s.withElsewhere ids).workerStep = s.workerStep.map fun s' => s'.withElsewhere ids := by
  have hWorker : (s.withElsewhere ids).worker = s.worker := rfl
  have hTasks : (s.withElsewhere ids).tasks = s.tasks := rfl
  have hContainers : (s.withElsewhere ids).containers = s.containers := rfl
  have hTemporary : (s.withElsewhere ids).temporary = s.temporary := rfl
  unfold workerStep
  simp only [hWorker, hTasks, hContainers, hTemporary, prepareContainer_withElsewhere,
    startContainer_withElsewhere]
  cases s.worker with
  | accept | resetBarrier | startBarrier | closePipes => rfl
  | awaitStart => exact ite_eq_of_eq rfl rfl
  | prepareContainers i | startContainer i =>
    simp only
    cases s.tasks[i]? with
    | none => rfl
    | some task => rfl
  | taskBarrier i =>
    simp only
    cases s.containers[i]? with
    | none => rfl
    | some c => rfl
  | awaitTask i | awaitResults i =>
    simp only
    cases s.containers[i]? with
    | none => rfl
    | some c => exact ite_eq_of_eq rfl rfl
  | putId i | waitpid i =>
    simp only
    cases s.temporary[i]? with
    | none => rfl
    | some c => exact ite_eq_of_eq rfl rfl
  | writeTasks i | resultsBarrier i | putResults i =>
    simp only
    cases s.tasks[i]? with
    | none => rfl
    | some task =>
      cases s.containers[i]? with
      | none => rfl
      | some c => first | rfl | exact ite_eq_of_eq rfl rfl

theorem containerStep_withElsewhere (s : Sys) (ids : List Uid) (c : BoxId) :
    (s.withElsewhere ids).containerStep c =
      (s.containerStep c).map fun s' => s'.withElsewhere ids := by
  have hBox : (s.withElsewhere ids).box = s.box := rfl
  unfold containerStep
  simp only [hBox]
  cases (s.box c).pc with
  | awaitTask | awaitStart | awaitResults => exact ite_eq_of_eq rfl rfl
  | waitForSlave =>
    simp only
    split <;> rfl
  | _ => rfl

theorem slaveStep_withElsewhere (s : Sys) (ids : List Uid) (c : BoxId) :
    (s.withElsewhere ids).slaveStep pathEnv c =
      (s.slaveStep pathEnv c).map fun s' => s'.withElsewhere ids := by
  have hBox : (s.withElsewhere ids).box = s.box := rfl
  unfold slaveStep
  simp only [hBox]
  cases (s.box c).slave with
  | none => rfl
  | some sl =>
    cases hPc : sl.pc with
    | awaitStart =>
      simp only [hPc]
      exact ite_eq_of_eq rfl rfl
    | _ =>
      simp only [hPc]
      rfl

/-- **A worker's own steps do not look at what others hold.** -/
theorem step_withElsewhere (ids : List Uid) (hOwn : a ≠ .othersGet ∧ ∀ id, a ≠ .othersPut id) :
    (s.withElsewhere ids).step pathEnv a =
      (s.step pathEnv a).map fun s' => s'.withElsewhere ids := by
  have hBox : (s.withElsewhere ids).box = s.box := rfl
  cases a with
  | worker => exact ite_eq_of_eq (workerStep_withElsewhere s ids) rfl
  | container c => exact containerStep_withElsewhere s ids c
  | slave c => exact slaveStep_withElsewhere s ids c
  | accept | workerSigchld | parentDied => exact ite_eq_of_eq rfl rfl
  | tick c => exact ite_eq_of_eq (ite_eq_of_eq rfl rfl) rfl
  | readUsage c u => exact ite_eq_of_eq rfl rfl
  | exit c status =>
    simp only [step, exit, hBox]
    split <;> rfl
  | containerSigchld c =>
    simp only [step, containerSigchld, hBox]
    cases (s.box c).sigchld with
    | none => rfl
    | some status => exact ite_eq_of_eq (ite_eq_of_eq rfl rfl) rfl
  | fail p =>
    cases p with
    | worker =>
      refine ite_eq_of_eq ?_ rfl
      have hWorker : (s.withElsewhere ids).worker = s.worker := rfl
      simp only [failWorker, hWorker]
      split <;> rfl
    | container c =>
      simp only [step, fail, failContainer, hBox]
      split <;> rfl
    | slave c =>
      simp only [step, fail, failSlave, hBox]
      cases (s.box c).slave with
      | none => rfl
      | some sl =>
        simp only
        split <;> rfl
  | othersGet => exact absurd rfl hOwn.1
  | othersPut id => exact absurd rfl (hOwn.2 id)

end Sys

namespace Farm

variable {n : Nat} {pathEnv : Option Str} {f f' : Farm n} {wa : Fin n × Act} {w : Fin n}

/-- The worker `w`, with `ids` as those that others hold. -/
def among (f : Farm n) (w : Fin n) (ids : List Uid) : Sys :=
  { f.worker w with ids := ⟨f.stack, ids⟩ }

/-- What the other workers hold. -/
structure Elsewhere (f : Farm n) (w : Fin n) (ids : List Uid) : Prop where
  nodup : ids.Nodup
  mem : ∀ id, id ∈ ids ↔ ∃ v, v ≠ w ∧ id ∈ (f.worker v).held

/-- The worker `w` makes a step of its own. -/
theorem Elsewhere.own {ids : List Uid} (h : f.Elsewhere wa.1 ids)
    (hStep : f.step pathEnv wa = some f') :
    f'.Elsewhere wa.1 ids ∧ (f.among wa.1 ids).step pathEnv wa.2 = some (f'.among wa.1 ids) := by
  obtain ⟨s, hOwn, hWorker, hStack, hSelf, hOthers⟩ := step_worker hStep
  constructor
  · refine ⟨h.nodup, fun id => (h.mem id).trans ?_⟩
    constructor
    · rintro ⟨v, hNe, hHeld⟩
      exact ⟨v, hNe, by rwa [hOthers v hNe]⟩
    · rintro ⟨v, hNe, hHeld⟩
      exact ⟨v, hNe, by rwa [hOthers v hNe] at hHeld⟩
  · show ((f.see wa.1).withElsewhere ids).step pathEnv wa.2 = _
    rw [Sys.step_withElsewhere ids hOwn, hWorker]
    show some { s with ids := ⟨s.ids.stack, ids⟩ } = some { f'.worker wa.1 with ids := ⟨f'.stack, ids⟩ }
    rw [hSelf, hStack]

/-- Another worker makes a step. The worker `w` sees the ids that go and come. -/
theorem Elsewhere.other {ids : List Uid} (h : f.Elsewhere w ids) (hOwned : f.Owned) (hNe : w ≠ wa.1)
    (hStep : f.step pathEnv wa = some f') :
    ∃ ids', f'.Elsewhere w ids' ∧ (f'.among w ids' = f.among w ids ∨
      ∃ a, ¬ Own a ∧ (f.among w ids).step pathEnv a = some (f'.among w ids')) := by
  obtain ⟨s, hOwn, hWorker, hStack, hSelf, hOthers⟩ := step_worker hStep
  have hBorn : (f.see wa.1).Born := ⟨(hOwned.born wa.1).nodup, (hOwned.born wa.1).started⟩
  have hApart := hOwned.apart
  have hSame : ∀ ids', f'.stack = f.stack → f'.among w ids' = f.among w ids' := fun ids' hEq => by
    rw [among, among, hOthers w hNe, hEq]
  -- who holds an id now, if the stepping worker has got or lost `id`
  have hMem : ∀ id, (∃ v, v ≠ w ∧ id ∈ (f'.worker v).held) ↔
      id ∈ s.held ∨ ∃ v, v ≠ w ∧ v ≠ wa.1 ∧ id ∈ (f.worker v).held := by
    intro id
    constructor
    · rintro ⟨v, hv, hHeld⟩
      rcases eq_or_ne v wa.1 with rfl | hOther
      · exact .inl (hSelf ▸ hHeld)
      · exact .inr ⟨v, hv, hOther, hOthers v hOther ▸ hHeld⟩
    · rintro (hHeld | ⟨v, hv, hOther, hHeld⟩)
      · exact ⟨wa.1, hNe.symm, hSelf.symm ▸ hHeld⟩
      · exact ⟨v, hv, (hOthers v hOther).symm ▸ hHeld⟩
  have hOld : ∀ id, id ∈ ids ↔
      id ∈ (f.worker wa.1).held ∨ ∃ v, v ≠ w ∧ v ≠ wa.1 ∧ id ∈ (f.worker v).held := by
    intro id
    rw [h.mem id]
    constructor
    · rintro ⟨v, hv, hHeld⟩
      rcases eq_or_ne v wa.1 with rfl | hOther
      · exact .inl hHeld
      · exact .inr ⟨v, hv, hOther, hHeld⟩
    · rintro (hHeld | ⟨v, hv, -, hHeld⟩)
      · exact ⟨wa.1, hNe.symm, hHeld⟩
      · exact ⟨v, hv, hHeld⟩
  cases Sys.step_trades hBorn hOwn hWorker with
  | keeps hIds hKept =>
    refine ⟨ids, ⟨h.nodup, fun id => ?_⟩, .inl (hSame ids (by rw [hStack, hIds]; rfl))⟩
    rw [hOld, hMem, hKept.mem_iff]
    rfl
  | gets id hOldStack hElsewhere hTaken =>
    change f.stack = id :: s.ids.stack at hOldStack
    have hFree : id ∈ f.stack := by
      rw [hOldStack]
      exact List.mem_cons_self
    have hNew : id ∉ ids := fun hIn => by
      obtain ⟨v, -, hHeld⟩ := (h.mem id).mp hIn
      exact hApart.unheld v hFree hHeld
    refine ⟨id :: ids, ⟨List.nodup_cons.mpr ⟨hNew, h.nodup⟩, fun id' => ?_⟩,
      .inr ⟨.othersGet, fun hOwn => hOwn.1 rfl, ?_⟩⟩
    · rw [List.mem_cons, hOld, hMem, hTaken.mem_iff, List.mem_cons, or_assoc]
      rfl
    · have hGet : (f.among w ids).ids.stack = id :: s.ids.stack := hOldStack
      simp only [Sys.step, hGet]
      rw [among, among, hOthers w hNe, hStack]
  | puts id hNewStack hElsewhere hGiven =>
    change s.ids.stack = id :: f.stack at hNewStack
    have hHeld : id ∈ (f.worker wa.1).held := hGiven.mem_iff.mpr List.mem_cons_self
    have hIn : id ∈ ids := (hOld id).mpr (.inl hHeld)
    have hNodup : (id :: s.held).Nodup := hGiven.nodup_iff.mp (hApart.held_nodup wa.1)
    refine ⟨ids.erase id, ⟨h.nodup.erase id, fun id' => ?_⟩,
      .inr ⟨.othersPut id, fun hOwn => hOwn.2 id rfl, ?_⟩⟩
    · rw [h.nodup.mem_erase_iff, hOld, hMem]
      have hGive : id' ∈ (f.worker wa.1).held ↔ id' = id ∨ id' ∈ s.held :=
        hGiven.mem_iff.trans List.mem_cons
      rw [hGive]
      constructor
      · rintro ⟨hOther, (rfl | hKept) | hThird⟩
        · exact absurd rfl hOther
        · exact .inl hKept
        · exact .inr hThird
      · rintro (hKept | ⟨v, hv, hOther, hThird⟩)
        · exact ⟨fun hEq => (List.nodup_cons.mp hNodup).1 (hEq ▸ hKept), .inl (.inr hKept)⟩
        · refine ⟨fun hEq => ?_, .inr ⟨v, hv, hOther, hThird⟩⟩
          exact hApart.apart wa.1 v hOther.symm hHeld (hEq ▸ hThird)
    · have hIn' : id ∈ (f.among w ids).ids.elsewhere := hIn
      simp only [Sys.step, if_pos hIn']
      rw [among, among, hOthers w hNe, hStack, hNewStack]

theorem elsewhere_initial (n : Nat) (firstUid : Uid) (w : Fin n) :
    (initial n firstUid).Elsewhere w [] where
  nodup := List.nodup_nil
  mem id := by
    have hNone : ∀ v, ((initial n firstUid).worker v).held = [] := fun v => rfl
    simp [hNone]

/-- **A worker among others runs as a worker alone**, whatever the others do. -/
theorem reachable_among {firstUid : Uid}
    (hReach : Reachable (step pathEnv) (initial n firstUid) f) (w : Fin n) :
    ∃ ids, f.Elsewhere w ids ∧
      Reachable (Sys.step pathEnv) (Sys.initial firstUid) (f.among w ids) := by
  have hEnd : f.Owned ∧ ∀ w, ∃ ids, f.Elsewhere w ids ∧
      Reachable (Sys.step pathEnv) (Sys.initial firstUid) (f.among w ids) := by
    refine invariant_of_reachable (I := fun f : Farm n => f.Owned ∧ ∀ w, ∃ ids, f.Elsewhere w ids ∧
      Reachable (Sys.step pathEnv) (Sys.initial firstUid) (f.among w ids)) ?_ ?_ hReach
    · rintro f wa f' ⟨hOwned, hAlone⟩ hStep
      refine ⟨hOwned.step hStep, fun w => ?_⟩
      obtain ⟨ids, hElsewhere, hReach⟩ := hAlone w
      rcases eq_or_ne w wa.1 with rfl | hNe
      · obtain ⟨hElsewhere', hOwn⟩ := hElsewhere.own hStep
        exact ⟨ids, hElsewhere', hReach.snoc hOwn⟩
      · obtain ⟨ids', hElsewhere', hSame | ⟨a, -, hOther⟩⟩ := hElsewhere.other hOwned hNe hStep
        · exact ⟨ids', hElsewhere', hSame ▸ hReach⟩
        · exact ⟨ids', hElsewhere', hReach.snoc hOther⟩
    · exact ⟨owned_initial n firstUid, fun w => ⟨[], elsewhere_initial n firstUid w, [], rfl⟩⟩
  exact hEnd.2 w

end Farm

end Libsbox
