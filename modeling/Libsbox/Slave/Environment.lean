import Libsbox.Marshalling.Capacity

/-!
# libsbox — the environment of the target

What `execvpe` finds in the `env` of the shared block: the entries that `set_task` has put
there in the worker, and the one that the slave may have added.

## Results

* `Holds.envp_eq` — `execvpe` reads the strings that the vector holds;
* `launch_environment_iff` — when the daemon's `PATH` is added as it should be.
-/

namespace Libsbox

open CMemory

namespace PlainStringVector

variable {maxItems maxTotalSize : Nat}

/-- The C strings that an array of pointers into `data` leads to, up to `nullptr`. -/
def strings (data : Str) : List (Option Nat) → List Str
  | some offset :: pointers => cstr (data.drop offset) :: strings data pointers
  | _ => []

/-- What `execvpe` makes of `get()`. -/
def envp (v : PlainStringVector maxItems maxTotalSize) : List Str :=
  strings v.data.data.toList v.items.data.toList

theorem strings_append (data : Str) (offsets : List Nat) (rest : List (Option Nat)) :
    strings data (offsets.map some ++ none :: rest) =
      offsets.map fun offset => cstr (data.drop offset) := by
  induction offsets with
  | nil => rfl
  | cons offset offsets ih => exact congrArg (cstr (data.drop offset) :: ·) ih

/-- `execvpe` reads the strings that the vector holds. -/
theorem Holds.envp_eq {v : PlainStringVector maxItems maxTotalSize} {strs : List Str}
    (h : v.Holds strs) : v.envp = strs.map cstr := by
  obtain ⟨-, rest, hItems⟩ := h.items
  rw [envp, hItems, List.append_assoc]
  exact (strings_append _ _ _).trans h.cstr_offsets

end PlainStringVector

-- ---------------------------------------------------------------------------
-- The daemon's PATH
-- ---------------------------------------------------------------------------

/-- An entry of an environment that sets `PATH`. -/
def SetsPath (str : Str) : Prop := lit "PATH=" <+: cstr str

instance (str : Str) : Decidable (SetsPath str) := inferInstanceAs (Decidable (_ <+: _))

/-- The environment that a task with the list `env` is to get: the daemon's `PATH` behind
its own entries, unless one of these sets it. -/
def environmentOf (pathEnv : Option Str) (env : List Str) : List Str :=
  env.map cstr ++ if env.any fun str => SetsPath str then [] else (pathEnv.map pathEntry).toList

variable {task : Task} {d d' : TaskData} {pipes pipes' : Pipes} {pathEnv : Option Str}

theorem cstr_pathEntry (path : Str) : cstr (pathEntry path) = pathEntry path := by
  refine cstr_of_nul_free fun hNul => ?_
  rcases List.mem_append.mp hNul with hLit | hPath
  · revert hLit
    decide
  · exact nul_notMem_cstr path hPath

/-- **What the slave makes of the environment**: only an entry that is `PATH=` and no more
keeps it from adding another one. -/
theorem addPath_envp {env : List Str} (hEnv : d.env.Holds env) (h : addPath pathEnv d = .ok d') :
    d'.env.envp = env.map cstr ++
      if ∃ str ∈ env, cstr str = lit "PATH=" then [] else (pathEnv.map pathEntry).toList := by
  unfold addPath at h
  split at h
  · rename_i hHas
    obtain rfl := Except.ok.inj h
    rw [if_pos ((hasPath_iff hEnv).mp hHas), hEnv.envp_eq, List.append_nil]
  · rename_i hHas
    rw [if_neg fun hEx => hHas ((hasPath_iff hEnv).mpr hEx)]
    cases pathEnv with
    | none =>
      obtain rfl := Except.ok.inj h
      rw [hEnv.envp_eq]
      exact (List.append_nil _).symm
    | some path =>
      dsimp only at h
      rcases PlainStringVector.add_cases hEnv (pathEntry path) with ⟨-, hAdd⟩ | ⟨w, hAdd, hHolds⟩
      · rw [hAdd] at h
        cases h
      · rw [hAdd] at h
        obtain rfl := Except.ok.inj h
        show w.envp = _
        rw [hHolds.envp_eq, List.map_append, List.map_singleton, cstr_pathEntry]
        rfl

/-- **The environment is the one meant** if and only if the task sets no `PATH`, or it has
an entry `PATH=` with nothing behind it, or there is no `PATH` to add. -/
theorem launch_environment_iff (h : launch task d pipes pathEnv = .ok d') :
    d'.env.envp = environmentOf pathEnv task.env ↔
      (∀ str ∈ task.env, ¬ SetsPath str) ∨ (∃ str ∈ task.env, cstr str = lit "PATH=") ∨
        pathEnv = none := by
  obtain ⟨⟨m, pipes'⟩, hSet, hAdd⟩ := bind_eq_ok h
  rw [addPath_envp (setTask_holds hSet).2 hAdd, environmentOf, List.append_cancel_left_eq]
  by_cases hExact : ∃ str ∈ task.env, cstr str = lit "PATH="
  · have hSets : (task.env.any fun str => SetsPath str) = true := by
      obtain ⟨str, hMem, hEq⟩ := hExact
      have hPrefix : SetsPath str :=
        ⟨[], (List.append_nil _).trans hEq.symm⟩
      exact List.any_eq_true.mpr ⟨str, hMem, decide_eq_true hPrefix⟩
    rw [if_pos hExact, if_pos hSets]
    exact iff_of_true rfl (.inr (.inl hExact))
  · rw [if_neg hExact]
    by_cases hSets : (task.env.any fun str => SetsPath str) = true
    · obtain ⟨str, hMem, hStr⟩ := List.any_eq_true.mp hSets
      have hNot : ¬ ∀ str ∈ task.env, ¬ SetsPath str := fun hNone =>
        hNone str hMem (of_decide_eq_true hStr)
      rw [if_pos hSets]
      cases pathEnv with
      | none => exact iff_of_true rfl (.inr (.inr rfl))
      | some path => simp [hNot, hExact]
    · have hNone : ∀ str ∈ task.env, ¬ SetsPath str := fun str hMem hStr =>
        hSets (List.any_eq_true.mpr ⟨str, hMem, decide_eq_true hStr⟩)
      rw [if_neg hSets]
      exact iff_of_true rfl (.inl hNone)

/-- The slave has no message for an entry that does not fit. -/
theorem addPath_cases (d : TaskData) (pathEnv : Option Str) :
    (∃ d', addPath pathEnv d = .ok d') ∨ addPath pathEnv d = .error .outOfBounds := by
  unfold addPath
  split
  · exact .inl ⟨d, rfl⟩
  · cases pathEnv with
    | none => exact .inl ⟨d, rfl⟩
    | some path =>
      dsimp only
      cases hAdd : d.env.add (pathEntry path) with
      | none => exact .inr rfl
      | some env => exact .inl ⟨_, rfl⟩

/-- A task whose list leaves the daemon's `PATH` its room comes to `execvpe`. -/
theorem launch_returns (hAccepts : ∀ msg, setTask task d pipes ≠ .error (.die msg))
    (hFits : PathFits task.env pathEnv) : ∃ d', launch task d pipes pathEnv = .ok d' := by
  have hIn := (launch_inBounds_iff_of_accepted hAccepts pathEnv).mpr hFits
  obtain ⟨m, pipes', hSet⟩ := setTask_returns hAccepts
  unfold launch at hIn ⊢
  rw [hSet] at hIn ⊢
  rcases addPath_cases m pathEnv with hOk | hOut
  · exact hOk
  · exact absurd hOut hIn

/-- A task that sets its own `PATH`. -/
def pathTask : Task := { argv := [lit "a"], env := [lit "PATH=/bin"] }

theorem pathTask_launch :
    ∃ d', launch pathTask TaskData.new ⟨[], []⟩ (some (lit "/usr/bin")) = .ok d' :=
  launch_returns (setTask_accepts _ _ rfl rfl rfl rfl (by decide) (by decide)) (by decide)

theorem launch_environment_iff_path :
    ∃ d', launch pathTask TaskData.new ⟨[], []⟩ (some (lit "/usr/bin")) = .ok d' ∧
      ¬ d'.env.envp = environmentOf (some (lit "/usr/bin")) pathTask.env := by
  obtain ⟨d', hLaunch⟩ := pathTask_launch
  exact ⟨d', hLaunch, fun hEq => absurd ((launch_environment_iff hLaunch).mp hEq) (by decide)⟩

/-- It gets the daemon's `PATH` as a second one. -/
theorem launch_adds_second_path :
    ¬ ∀ (task : Task) (d : TaskData) (pipes : Pipes) (pathEnv : Option Str) (d' : TaskData),
      launch task d pipes pathEnv = .ok d' →
      d'.env.envp = environmentOf pathEnv task.env := by
  intro hClaim
  obtain ⟨d', hLaunch⟩ := pathTask_launch
  have hEq := hClaim _ _ _ _ _ hLaunch
  obtain ⟨⟨m, pipes'⟩, hSet, hAdd⟩ := bind_eq_ok hLaunch
  rw [addPath_envp (setTask_holds hSet).2 hAdd] at hEq
  revert hEq
  decide

end Libsbox
