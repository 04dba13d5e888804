import Libsbox.Ids.Held
import Libsbox.Lib.Pool

/-!
# libsbox — workers that share the ids

All workers of a daemon take their ids from one `SharedIdGetter`, so that no two
containers have the same. The getter itself never hands out an id that somebody
holds; but `collect_results` puts the id of a temporary container back before it
waits for the container, and while that one lingers another worker can start one
with its id.

## Results

* `owned_of_run` — an id is free or with one worker, whatever the workers do;
* `distinct_iff` — when the containers not waited for have distinct ids throughout a run.
-/

namespace Libsbox

open CMemory Runs Pool

/-- A daemon with `n` workers; `stack` is the getter's. -/
structure Farm (n : Nat) where
  stack : List Uid
  worker : Fin n → Sys

namespace Farm

variable {n : Nat}

/-- `Daemon::prepare` and the start of the workers. -/
def initial (n : Nat) (firstUid : Uid) : Farm n where
  stack := (SharedIdGetter.new firstUid idCount).stack
  worker _ := Sys.initial firstUid

/-- A worker, with the getter as it is now. -/
def see (f : Farm n) (w : Fin n) : Sys := { f.worker w with ids := ⟨f.stack, []⟩ }

/-- The action is not one of `SharedIdGetter` that stands for the other workers. -/
def Own (a : Act) : Prop := a ≠ .othersGet ∧ ∀ id, a ≠ .othersPut id

instance (a : Act) : Decidable (Own a) :=
  match a with
  | .othersGet => isFalse fun h => h.1 rfl
  | .othersPut id => isFalse fun h => h.2 id rfl
  | .accept _ | .worker | .container _ | .tick _ _ _ | .readUsage _ _ | .slave _ | .exit _ _
  | .containerSigchld _ | .workerSigchld _ | .parentDied _ | .fail _ => isTrue ⟨nofun, nofun⟩

/-- One step of one worker, or of a container of it. -/
def step (pathEnv : Option Str) (f : Farm n) (wa : Fin n × Act) : Option (Farm n) :=
  if Own wa.2 then
    ((f.see wa.1).step pathEnv wa.2).map fun s => ⟨s.ids.stack, Function.update f.worker wa.1 s⟩
  else none

/-- The id of a container of the worker `w`. -/
def uid (f : Farm n) (w : Fin n) (c : BoxId) : Uid := ((f.worker w).box c).id

/-- **The containers that have been started and not waited for have distinct ids.** -/
def Distinct (f : Farm n) : Prop :=
  ∀ w v c d, c ∈ (f.worker w).unreaped → d ∈ (f.worker v).unreaped → f.uid w c = f.uid v d →
    w = v ∧ c = d

/-- The step starts a container with the id of one that lingers: a worker has put that
id back and not waited for the container yet. -/
def StartsLingering (f : Farm n) (wa : Fin n × Act) : Prop :=
  ∃ id v d, (f.worker wa.1).StartsAt wa.2 id ∧ (f.worker v).lingering = some d ∧ f.uid v d = id

/-- An id is free or with one worker. -/
structure Owned (f : Farm n) : Prop where
  born : ∀ w, (f.worker w).Born
  apart : Apart f.stack fun w => (f.worker w).held

variable {pathEnv : Option Str} {f f' : Farm n} {wa : Fin n × Act}

/-- A step of the farm is one of a worker, who alone changes. -/
theorem step_worker (h : f.step pathEnv wa = some f') :
    ∃ s, Own wa.2 ∧ (f.see wa.1).step pathEnv wa.2 = some s ∧ f'.stack = s.ids.stack ∧
      f'.worker wa.1 = s ∧ ∀ v, v ≠ wa.1 → f'.worker v = f.worker v := by
  unfold step at h
  split at h
  · rename_i hOwn
    obtain ⟨s, hStep, rfl⟩ := Option.map_eq_some_iff.mp h
    exact ⟨s, hOwn, hStep, rfl, Function.update_self .., fun v hNe => Function.update_of_ne hNe ..⟩
  · cases h

-- ---------------------------------------------------------------------------
-- The getter
-- ---------------------------------------------------------------------------

theorem stack_nodup (firstUid : Uid) : (SharedIdGetter.new firstUid idCount).stack.Nodup := by
  refine List.Nodup.map_on (fun i hi j hj hEq => ?_) List.nodup_range
  have hi' : i < idCount := List.mem_range.mp hi
  have hj' : j < idCount := List.mem_range.mp hj
  have hSame : UInt32.ofNat i = UInt32.ofNat j := by
    simpa using hEq
  have hNat := congrArg UInt32.toNat hSame
  rw [UInt32.toNat_ofNat', UInt32.toNat_ofNat'] at hNat
  simp only [idCount] at hi' hj'
  omega

theorem owned_initial (n : Nat) (firstUid : Uid) : (initial n firstUid).Owned where
  born _ := Sys.born_initial firstUid
  apart := apart_of_nodup (stack_nodup firstUid)

/-- **A step keeps every id in one place.** -/
theorem Owned.step (h : f.Owned) (hStep : f.step pathEnv wa = some f') : f'.Owned := by
  obtain ⟨s, hOwn, hWorker, hStack, hSelf, hOthers⟩ := step_worker hStep
  have hBorn : (f.see wa.1).Born := ⟨(h.born wa.1).nodup, (h.born wa.1).started⟩
  have hHeld : ∀ v, v ≠ wa.1 → (f'.worker v).held = (f.worker v).held := fun v hNe => by
    rw [hOthers v hNe]
  constructor
  · intro w
    rcases eq_or_ne w wa.1 with rfl | hNe
    · rw [hSelf]
      exact hBorn.step hWorker
    · rw [hOthers w hNe]
      exact h.born w
  · have hApart := h.apart
    cases Sys.step_trades hBorn hOwn hWorker with
    | keeps hIds hKept =>
      rw [hStack, hIds]
      exact hApart.keep hHeld (hSelf ▸ hKept)
    | gets id hOld hElsewhere hTaken =>
      change f.stack = id :: s.ids.stack at hOld
      rw [hOld] at hApart
      rw [hStack]
      exact hApart.take hHeld (hSelf ▸ hTaken)
    | puts id hNew hElsewhere hGiven =>
      rw [hStack, hNew]
      exact hApart.give hHeld (hSelf ▸ hGiven)

-- ---------------------------------------------------------------------------
-- The containers
-- ---------------------------------------------------------------------------

theorem Distinct.reaps (h : f.Distinct) {s : Sys} {w : Fin n} (hSelf : f'.worker w = s)
    (hOthers : ∀ v, v ≠ w → f'.worker v = f.worker v) (hReaps : (f.worker w).Reaps s) :
    f'.Distinct := by
  have hOld : ∀ v c, c ∈ (f'.worker v).unreaped →
      c ∈ (f.worker v).unreaped ∧ f'.uid v c = f.uid v c := by
    intro v c hMem
    rcases eq_or_ne v w with rfl | hNe
    · rw [hSelf] at hMem
      rw [uid, hSelf]
      exact hReaps c hMem
    · rw [hOthers v hNe] at hMem
      rw [uid, hOthers v hNe]
      exact ⟨hMem, rfl⟩
  intro v v' c d hc hd hSame
  rw [(hOld v c hc).2, (hOld v' d hd).2] at hSame
  exact h v v' c d (hOld v c hc).1 (hOld v' d hd).1 hSame

/-- The id in hand is with no container that has been started, unless it lingers. -/
theorem Owned.hand_lingers (h : f.Owned) {w v : Fin n} {c : BoxId} {id : Uid}
    (hHand : id ∈ (f.worker w).worker.hand) (hMem : c ∈ (f.worker v).unreaped)
    (hSame : f.uid v c = id) : (f.worker v).lingering = some c := by
  rcases Sys.mem_unreaped.mp hMem with hReturned | hLingers
  · exfalso
    have hIn : id ∈ (f.worker v).unreturned.map fun c => ((f.worker v).box c).id :=
      List.mem_map.mpr ⟨c, hReturned, hSame⟩
    rcases eq_or_ne w v with rfl | hNe
    · exact (List.disjoint_of_nodup_append (h.apart.held_nodup w)) hIn hHand
    · exact h.apart.apart w v hNe (List.mem_append_right _ hHand) (List.mem_append_left _ hIn)
  · exact hLingers

/-- A new container makes two of one id exactly if one of that id lingers. -/
theorem Distinct.starts (hOwned : f.Owned) (h : f.Distinct) {s : Sys} {w : Fin n} {a : Act}
    {id : Uid} (hSelf : f'.worker w = s) (hOthers : ∀ v, v ≠ w → f'.worker v = f.worker v)
    (hAt : (f.worker w).StartsAt a id) (hStarts : (f.worker w).Starts s id) :
    f'.Distinct ↔ ∀ v d, (f.worker v).lingering = some d → f.uid v d ≠ id := by
  have hHand : id ∈ (f.worker w).worker.hand := by
    obtain ⟨-, i, next, hWorker⟩ := hAt
    rw [hWorker]
    exact List.mem_singleton_self id
  have hNew : (f.worker w).started ∈ (f'.worker w).unreaped ∧ f'.uid w (f.worker w).started = id := by
    rw [uid, hSelf]
    exact ⟨(hStarts.unreaped _).mpr (.inl rfl), hStarts.new⟩
  have hOld : ∀ v c, c ∈ (f.worker v).unreaped →
      c ∈ (f'.worker v).unreaped ∧ f'.uid v c = f.uid v c := by
    intro v c hMem
    rcases eq_or_ne v w with rfl | hNe
    · rw [uid, hSelf]
      exact ⟨(hStarts.unreaped c).mpr (.inr hMem), hStarts.old c hMem⟩
    · rw [uid, hOthers v hNe]
      exact ⟨hMem, rfl⟩
  have hCases : ∀ v c, c ∈ (f'.worker v).unreaped →
      (v = w ∧ c = (f.worker w).started) ∨ c ∈ (f.worker v).unreaped := by
    intro v c hMem
    rcases eq_or_ne v w with rfl | hNe
    · rw [hSelf] at hMem
      exact ((hStarts.unreaped c).mp hMem).imp_left fun hEq => ⟨rfl, hEq⟩
    · rw [hOthers v hNe] at hMem
      exact .inr hMem
  constructor
  · intro hDistinct v d hLingers hSame
    have hMem := Sys.mem_unreaped.mpr (.inr hLingers)
    obtain ⟨hMem', hUid⟩ := hOld v d hMem
    obtain ⟨rfl, rfl⟩ := hDistinct w v _ d hNew.1 hMem' (by rw [hNew.2, hUid, hSame])
    have hLists : (f.worker w).started ∈ (f.worker w).permanent ++ (f.worker w).temporary := by
      rcases List.mem_append.mp hMem with hPermanent | hTemporary
      · exact List.mem_append_left _ hPermanent
      · exact List.mem_append_right _ (List.mem_of_mem_drop hTemporary)
    exact Nat.lt_irrefl _ ((hOwned.born w).started _ hLists)
  · intro hNone v v' c d hc hd hSame
    -- a container that is not new does not have the new id
    have hOther : ∀ u e, e ∈ (f.worker u).unreaped → f'.uid u e ≠ id := by
      intro u e hMem hId
      rw [(hOld u e hMem).2] at hId
      exact hNone u e (hOwned.hand_lingers hHand hMem hId) hId
    rcases hCases v c hc with ⟨rfl, rfl⟩ | hcOld <;> rcases hCases v' d hd with ⟨rfl, rfl⟩ | hdOld
    · exact ⟨rfl, rfl⟩
    · exact absurd (hSame.symm.trans hNew.2) (hOther v' d hdOld)
    · exact absurd (hSame.trans hNew.2) (hOther v c hcOld)
    · rw [(hOld v c hcOld).2, (hOld v' d hdOld).2] at hSame
      exact h v v' c d hcOld hdOld hSame

/-- **What a step does to the ids of the containers.** -/
theorem distinct_step (hOwned : f.Owned) (h : f.Distinct)
    (hStep : f.step pathEnv wa = some f') : f'.Distinct ↔ ¬ f.StartsLingering wa := by
  obtain ⟨s, hOwn, hWorker, hStack, hSelf, hOthers⟩ := step_worker hStep
  by_cases hStarts : ∃ id, (f.worker wa.1).StartsAt wa.2 id
  · obtain ⟨id, hAt⟩ := hStarts
    have hBorn : (f.see wa.1).Born := ⟨(hOwned.born wa.1).nodup, (hOwned.born wa.1).started⟩
    have hStarted : (f.see wa.1).Starts s id := Sys.step_starts hBorn hAt hWorker
    have hStarted' : (f.worker wa.1).Starts s id := ⟨hStarted.unreaped, hStarted.old, hStarted.new⟩
    rw [h.starts hOwned hSelf hOthers hAt hStarted']
    constructor
    · rintro hNone ⟨id', v, d, hAt', hLingers, hSame⟩
      obtain rfl : id' = id := by
        obtain ⟨-, i, next, hWorker⟩ := hAt
        obtain ⟨-, i', next', hWorker'⟩ := hAt'
        rw [hWorker] at hWorker'
        exact (WorkerAt.startContainer.inj hWorker').2.2.symm
      exact hNone v d hLingers hSame
    · exact fun hNot v d hLingers hSame => hNot ⟨id, v, d, hAt, hLingers, hSame⟩
  · have hReaps : (f.see wa.1).Reaps s :=
      Sys.step_reaps (fun id hAt => hStarts ⟨id, hAt⟩) hWorker
    refine iff_of_true (h.reaps hSelf hOthers hReaps) ?_
    rintro ⟨id, v, d, hAt, -⟩
    exact hStarts ⟨id, hAt⟩

theorem distinct_initial (n : Nat) (firstUid : Uid) : (initial n firstUid).Distinct :=
  fun _ _ _ _ hc => absurd hc List.not_mem_nil

/-- **Live containers have distinct ids** throughout a run if and only if no worker
starts a container with an id that another one has put back and whose container it has
not waited for yet. -/
theorem distinct_iff {firstUid : Uid} {acts : List (Fin n × Act)}
    (hRun : run (step pathEnv) (initial n firstUid) acts = some f) :
    Throughout (step pathEnv) Distinct (initial n firstUid) acts ↔
      AllSteps (step pathEnv) (fun f wa => ¬ f.StartsLingering wa) (initial n firstUid) acts :=
  throughout_iff_allSteps (I := Owned) (fun _ _ _ h hStep => h.step hStep)
    (fun _ _ _ hOwned h hStep => distinct_step hOwned h hStep)
    (owned_initial n firstUid) (distinct_initial n firstUid) hRun

/-- The id with which the step starts a container. -/
def startedId? (s : Sys) (a : Act) : Option Uid :=
  match a, s.worker with
  | .worker, .startContainer _ _ id => some id
  | _, _ => none

theorem startsAt_iff {s : Sys} {a : Act} {id : Uid} :
    s.StartsAt a id ↔ startedId? s a = some id := by
  unfold Sys.StartsAt startedId?
  split
  · next i next id' hPlace => simp [hPlace]
  · next hNot =>
    simp only [reduceCtorEq, iff_false, not_and, not_exists]
    exact fun hWorker i next hPlace => hNot i next id hWorker hPlace

instance (f : Farm n) (wa : Fin n × Act) : Decidable (f.StartsLingering wa) :=
  decidable_of_iff (∃ id ∈ startedId? (f.worker wa.1) wa.2, ∃ v, ∃ d ∈ (f.worker v).lingering,
      f.uid v d = id) <| by
    simp only [StartsLingering, startsAt_iff, Option.mem_def, exists_and_left]

/-- A task for a temporary container, served up to the loop that waits for it: its id is
back in the getter. -/
def lingeringRun : List Act :=
  .accept [{ argv := [lit "true"], needIpc := true }] :: List.replicate 7 .worker ++
    List.replicate 4 (.container 0) ++ List.replicate 3 .worker ++
    List.replicate 4 (.container 0) ++ List.replicate 8 (.slave 0) ++
    [.exit 0 (.exited 0), .container 0, .container 0, .containerSigchld 0,
      .readUsage 0 ⟨1, 0, 1, 2, 300, false, false⟩, .worker, .worker, .worker, .container 0,
      .container 0, .worker, .worker, .worker, .worker]

/-- While the container lingers, another worker gets its id. It starts a container with
it when the first one has been waited for. -/
def handedOnRun : List (Fin 2 × Act) :=
  lingeringRun.map (fun a => (0, a)) ++
    [(1, .accept [{ argv := [lit "true"] }]), (1, .worker), (0, .container 0), (0, .container 0),
      (0, .worker), (0, .worker), (1, .worker)]

set_option maxRecDepth 4000 in
theorem distinct_of_handedOnRun :
    ∃ f, run (step none) (initial 2 1000) handedOnRun = some f ∧ f.uid 0 0 = 1000 ∧
      f.uid 1 0 = 1000 ∧ Throughout (step none) Distinct (initial 2 1000) handedOnRun := by
  obtain ⟨f, hRun⟩ : ∃ f, run (step none) (initial 2 1000) handedOnRun = some f :=
    Option.isSome_iff_exists.mp rfl
  refine ⟨f, hRun, of_run_map (f := fun f => f.uid 0 0) rfl hRun,
    of_run_map (f := fun f => f.uid 1 0) rfl hRun, (distinct_iff hRun).mpr ?_⟩
  decide +kernel

/-- The other worker does not wait for that. -/
def sharedRun : List (Fin 2 × Act) :=
  lingeringRun.map (fun a => (0, a)) ++
    [(1, .accept [{ argv := [lit "true"] }]), (1, .worker), (1, .worker)]

set_option maxRecDepth 4000 in
/-- Another worker starts a container with the id of the lingering one. -/
theorem distinct_refuted :
    ¬ ∀ (n : Nat) (f : Farm n), Reachable (step none) (initial n 1000) f → f.Distinct := by
  intro hClaim
  obtain ⟨f, hRun⟩ : ∃ f, run (step none) (initial 2 1000) sharedRun = some f :=
    Option.isSome_iff_exists.mp rfl
  have hFirst : (f.worker 0).unreaped = [0] :=
    of_run_map (f := fun f => (f.worker 0).unreaped) rfl hRun
  have hSecond : (f.worker 1).unreaped = [0] :=
    of_run_map (f := fun f => (f.worker 1).unreaped) rfl hRun
  have hSame : f.uid 0 0 = f.uid 1 0 := by
    have hZero : f.uid 0 0 = 1000 := of_run_map (f := fun f => f.uid 0 0) rfl hRun
    have hOne : f.uid 1 0 = 1000 := of_run_map (f := fun f => f.uid 1 0) rfl hRun
    rw [hZero, hOne]
  have hEq := (hClaim 2 f ⟨_, hRun⟩ 0 1 0 0 (by rw [hFirst]; exact List.mem_cons_self)
    (by rw [hSecond]; exact List.mem_cons_self) hSame).1
  exact absurd hEq (by decide)

end Farm

end Libsbox
