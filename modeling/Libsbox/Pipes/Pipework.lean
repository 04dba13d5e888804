import Libsbox.Model.Descriptors
import Mathlib.Data.List.Nodup

/-!
# libsbox — the pipes of a worker

`get_pipe` and `close_pipes` keep the map `pipes_` and the descriptor table in step:
the ends of pipes that are open in the table are those of the entries, each under the
name for which the pipe was made.

## Results

* `Pipework.Ok.addPipes`, `Pipework.Ok.closePipe` — the worker's calls keep this;
* `Pipework.Ok.openFile`, `Pipework.Ok.closeFile` — so does what else the worker and its
  containers do to their table.
-/

namespace Libsbox

open CMemory

/-- The descriptor of one end. -/
def PipeEnd.fd : PipeEnd → Fd × Fd → Fd
  | .read => Prod.fst
  | .write => Prod.snd

/-- Entries that `get_pipe` adds to a map: none of their names is there before. -/
inductive Pipes.Adds (pipes : List (Str × Fd × Fd)) : List (Str × Fd × Fd) → Prop where
  | nil : Adds pipes []
  | cons {name : Str} {fds : Fd × Fd} {new : List (Str × Fd × Fd)} (h : Adds pipes new)
      (hNew : (new ++ pipes).lookup name = none) : Adds pipes ((name, fds) :: new)

namespace Pipes

variable {pipes new newer : List (Str × Fd × Fd)} {name : Str} {fds : Fd × Fd}

/-- What is in the map stays there. -/
theorem Adds.lookup (h : Adds pipes new) (hOld : pipes.lookup name = some fds) :
    (new ++ pipes).lookup name = some fds := by
  induction h with
  | nil => exact hOld
  | @cons other fds' new h hNew ih =>
    have hNe : (name == other) = false := by
      rw [beq_eq_false_iff_ne]
      rintro rfl
      rw [ih] at hNew
      cases hNew
    show ((other, fds') :: (new ++ pipes)).lookup name = some fds
    rw [List.lookup_cons, hNe]
    exact ih

theorem Adds.trans (h : Adds pipes new) (h' : Adds (new ++ pipes) newer) :
    Adds pipes (newer ++ new) := by
  induction h' with
  | nil => exact h
  | @cons name fds newer _ hNew ih =>
    refine .cons ih ?_
    show (newer ++ new ++ pipes).lookup name = none
    rwa [List.append_assoc]

end Pipes

namespace Pipework

/-- What ties the map, the history and the table together in a request. -/
structure Ok (request : Nat) (k : Pipework) : Prop where
  nonneg : ∀ fd f, k.table fd = some f → 0 ≤ fd
  standing : ∀ fd, standing fd = true → k.table fd = some .other
  wired : ∀ name fds, k.pipes.lookup name = some fds →
    ∃ p, k.made[p]? = some (request, name) ∧ ∀ e, k.table (e.fd fds) = some (.pipe p e)
  listed : ∀ fd p e, k.table fd = some (.pipe p e) →
    ∃ name fds, k.pipes.lookup name = some fds ∧ k.made[p]? = some (request, name) ∧ fd = e.fd fds
  past : ∀ entry ∈ k.made, entry.1 ≤ request
  once : k.made.Nodup

/-- The pipes made in the request are all in the map. -/
def Complete (request : Nat) (k : Pipework) : Prop :=
  ∀ name, (request, name) ∈ k.made → ∃ fds, k.pipes.lookup name = some fds

variable {request : Nat} {k k' : Pipework} {name : Str} {fds : Fd × Fd} {fd : Fd}

/-- A pipe has one name. -/
theorem Ok.made_inj (h : k.Ok request) {p q : Nat} {entry : Nat × Str}
    (hp : k.made[p]? = some entry) (hq : k.made[q]? = some entry) : p = q :=
  (List.getElem?_inj (List.getElem?_eq_some_iff.mp hp).1 h.once).mp (hp.trans hq.symm)

/-- Without entries there are no ends of pipes. -/
theorem Ok.no_ends (h : k.Ok request) (hEmpty : k.pipes = []) (fd : Fd) (p : Nat) (e : PipeEnd) :
    k.table fd ≠ some (.pipe p e) := by
  intro hOpen
  obtain ⟨name, fds, hLookup, -, -⟩ := h.listed fd p e hOpen
  rw [hEmpty] at hLookup
  cases hLookup

-- ---------------------------------------------------------------------------
-- The worker's calls
-- ---------------------------------------------------------------------------

/-- What a new pipe is. -/
theorem addPipe_cases (h : k.addPipe request (name, fds) = some k') :
    ∃ t, k.table.Opened (.pipe k.made.length .read) fds.1 t ∧
      t.Opened (.pipe k.made.length .write) fds.2 k'.table ∧
      k'.pipes = (name, fds) :: k.pipes ∧ k'.made = k.made ++ [(request, name)] := by
  simp only [addPipe, Option.bind_eq_bind, Option.bind_eq_some_iff, Prod.exists] at h
  obtain ⟨r, t, rest, hRead, w, t', rest', hWrite, hEq⟩ := h
  obtain ⟨hOpened, hFresh⟩ := FdTable.openFile_cases hRead
  cases hFresh
  obtain ⟨hOpened', hFresh'⟩ := FdTable.openFile_cases hWrite
  cases hFresh'
  obtain rfl := Option.some.inj hEq
  exact ⟨t, hOpened, hOpened', rfl, rfl⟩

theorem addPipe_extends (h : k.addPipe request (name, fds) = some k') :
    k.table.Extends k'.table := by
  obtain ⟨t, hRead, hWrite, -, -⟩ := addPipe_cases h
  exact hRead.extends.trans hWrite.extends

theorem Complete.addPipe (h : k.Complete request)
    (hAdd : k.addPipe request (name, fds) = some k') : k'.Complete request := by
  obtain ⟨t, -, -, hPipes, hMade⟩ := addPipe_cases hAdd
  intro other hOther
  rw [hMade, List.mem_append, List.mem_singleton] at hOther
  rw [hPipes, List.lookup_cons]
  rcases hOther with hOld | hSelf
  · obtain ⟨fds', hLookup⟩ := h other hOld
    split
    · exact ⟨fds, rfl⟩
    · exact ⟨fds', hLookup⟩
  · cases hSelf
    rw [beq_self_eq_true]
    exact ⟨fds, rfl⟩

/-- The ends of the new pipe. -/
theorem addPipe_ends (hAdd : k.addPipe request (name, fds) = some k') (e : PipeEnd) :
    0 ≤ e.fd fds ∧ k'.table (e.fd fds) = some (.pipe k.made.length e) := by
  obtain ⟨t, hRead, hWrite, -, -⟩ := addPipe_cases hAdd
  cases e with
  | read => exact ⟨hRead.nonneg, hWrite.extends _ _ hRead.self⟩
  | write => exact ⟨hWrite.nonneg, hWrite.self⟩

/-- An open descriptor is an old one, or one of the two ends. -/
theorem addPipe_open_cases (hAdd : k.addPipe request (name, fds) = some k') {f : File}
    (hOpen : k'.table fd = some f) :
    k.table fd = some f ∨ ∃ e : PipeEnd, fd = e.fd fds ∧ f = .pipe k.made.length e := by
  obtain ⟨t, hRead, hWrite, -, -⟩ := addPipe_cases hAdd
  rcases hWrite.cases hOpen with ⟨rfl, rfl⟩ | ⟨-, hOpen⟩
  · exact .inr ⟨.write, rfl, rfl⟩
  · rcases hRead.cases hOpen with ⟨rfl, rfl⟩ | ⟨-, hOpen⟩
    · exact .inr ⟨.read, rfl, rfl⟩
    · exact .inl hOpen

/-- The entries that there were stay, under a name that was not among them. -/
theorem addPipe_lookup (hNew : k.pipes.lookup name = none)
    (hAdd : k.addPipe request (name, fds) = some k') {other : Str} {fds' : Fd × Fd}
    (hOther : k.pipes.lookup other = some fds') : k'.pipes.lookup other = some fds' := by
  obtain ⟨t, -, -, hPipes, -⟩ := addPipe_cases hAdd
  have hNe : (other == name) = false := by
    rw [beq_eq_false_iff_ne]
    rintro rfl
    rw [hNew] at hOther
    cases hOther
  rw [hPipes, List.lookup_cons, hNe]
  exact hOther

theorem Ok.addPipe (h : k.Ok request) (hComplete : k.Complete request)
    (hNew : k.pipes.lookup name = none) (hAdd : k.addPipe request (name, fds) = some k') :
    k'.Ok request := by
  have hExtends := addPipe_extends hAdd
  have hEnds := addPipe_ends hAdd
  obtain ⟨t, -, -, hPipes, hMade⟩ := addPipe_cases hAdd
  have hOld : ∀ (p : Nat) (entry : Nat × Str), k.made[p]? = some entry →
      k'.made[p]? = some entry := by
    intro p entry hp
    rw [hMade, List.getElem?_append_left (List.getElem?_eq_some_iff.mp hp).1]
    exact hp
  have hSelf : k'.made[k.made.length]? = some (request, name) := by
    rw [hMade, List.getElem?_concat_length]
  refine ⟨fun fd f hOpen => ?_, fun fd hStanding => hExtends _ _ (h.standing fd hStanding),
    fun other fds' hOther => ?_, fun fd p e hOpen => ?_, fun entry hEntry => ?_, ?_⟩
  · rcases addPipe_open_cases hAdd hOpen with hOpen | ⟨e, rfl, -⟩
    · exact h.nonneg fd f hOpen
    · exact (hEnds e).1
  · rw [hPipes, List.lookup_cons] at hOther
    split at hOther
    · rename_i hEq
      obtain rfl := Option.some.inj hOther
      exact ⟨k.made.length, eq_of_beq hEq ▸ hSelf, fun e => (hEnds e).2⟩
    · obtain ⟨p, hp, hOpen⟩ := h.wired other fds' hOther
      exact ⟨p, hOld _ _ hp, fun e => hExtends _ _ (hOpen e)⟩
  · rcases addPipe_open_cases hAdd hOpen with hOpen | ⟨e', rfl, hFile⟩
    · obtain ⟨other, fds', hOther, hp, hFd⟩ := h.listed fd p e hOpen
      exact ⟨other, fds', addPipe_lookup hNew hAdd hOther, hOld _ _ hp, hFd⟩
    · cases hFile
      exact ⟨name, fds, by rw [hPipes, List.lookup_cons_self], hSelf, rfl⟩
  · rw [hMade, List.mem_append, List.mem_singleton] at hEntry
    rcases hEntry with hEntry | rfl
    · exact h.past entry hEntry
    · exact Nat.le_refl request
  · rw [hMade, List.nodup_append]
    refine ⟨h.once, List.nodup_singleton _, fun entry hEntry other hOther => ?_⟩
    rintro rfl
    rw [List.mem_singleton] at hOther
    subst hOther
    obtain ⟨fds', hFds'⟩ := hComplete name hEntry
    rw [hNew] at hFds'
    cases hFds'

/-- **The pipes of a call of `set_task`.** -/
theorem Ok.addPipes {new : List (Str × Fd × Fd)} (h : k.Ok request)
    (hComplete : k.Complete request) (hNew : Pipes.Adds k.pipes new)
    (hAdd : k.addPipes request new = some k') :
    k'.Ok request ∧ k'.Complete request ∧ k'.pipes = new ++ k.pipes ∧
      k.table.Extends k'.table ∧ k.made <+: k'.made := by
  induction hNew generalizing k' with
  | nil =>
    cases hAdd
    exact ⟨h, hComplete, rfl, .refl _, List.prefix_refl _⟩
  | @cons name fds new _ hFree ih =>
    obtain ⟨m, hRest, hLast⟩ := Option.bind_eq_some_iff.mp hAdd
    obtain ⟨hOk, hComplete', hPipes, hExtends, hMade⟩ := ih hRest
    rw [← hPipes] at hFree
    refine ⟨hOk.addPipe hComplete' hFree hLast, hComplete'.addPipe hLast, ?_,
      hExtends.trans (addPipe_extends hLast), hMade.trans ?_⟩
    · obtain ⟨t, -, -, hPipes', -⟩ := addPipe_cases hLast
      rw [hPipes', hPipes, List.cons_append]
    · obtain ⟨t, -, -, -, hMade'⟩ := addPipe_cases hLast
      rw [hMade']
      exact List.prefix_append _ _

/-- The map without an entry. -/
theorem lookup_filter (pipes : List (Str × Fd × Fd)) (name other : Str) :
    (pipes.filter fun entry => entry.1 ≠ name).lookup other =
      if other = name then none else pipes.lookup other := by
  induction pipes with
  | nil => simp
  | cons entry pipes ih =>
    obtain ⟨key, fds⟩ := entry
    rw [List.filter_cons, List.lookup_cons]
    rcases eq_or_ne key name with rfl | hNe
    · rw [if_neg (by simp), ih]
      rcases eq_or_ne other key with rfl | hOther
      · rw [if_pos rfl, if_pos rfl]
      · rw [if_neg hOther, if_neg hOther, beq_eq_false_iff_ne.mpr hOther]
    · rw [if_pos (by simpa using hNe), List.lookup_cons, ih]
      rcases eq_or_ne other key with rfl | hOther
      · rw [beq_self_eq_true, if_neg hNe, if_neg hNe]
      · rw [beq_eq_false_iff_ne.mpr hOther]

theorem Ok.closePipe (h : k.Ok request) (hClose : k.closePipe name = some k') :
    k'.Ok request := by
  unfold Pipework.closePipe at hClose
  split at hClose
  · cases hClose
  · rename_i r w hLookup
    simp only [Option.bind_eq_bind, Option.bind_eq_some_iff] at hClose
    obtain ⟨t, hRead, t', hWrite, hEq⟩ := hClose
    obtain rfl := Option.some.inj hEq
    obtain ⟨p, hp, hEnds⟩ := h.wired name (r, w) hLookup
    -- what is open behind the two calls
    have hOpen : ∀ fd f, t' fd = some f ↔ fd ≠ w ∧ fd ≠ r ∧ k.table fd = some f := by
      intro fd f
      rw [FdTable.close_open hWrite, FdTable.close_open hRead]
    refine ⟨fun fd f hFd => h.nonneg fd f ((hOpen fd f).mp hFd).2.2, fun fd hStanding => ?_,
      fun other fds' hOther => ?_, fun fd q e hFd => ?_, h.past, h.once⟩
    · have hKept := h.standing fd hStanding
      refine (hOpen fd _).mpr ⟨?_, ?_, hKept⟩
      · rintro rfl
        cases hKept.symm.trans (hEnds .write)
      · rintro rfl
        cases hKept.symm.trans (hEnds .read)
    · rw [lookup_filter] at hOther
      split at hOther
      · cases hOther
      · rename_i hNe
        obtain ⟨q, hq, hOther⟩ := h.wired other fds' hOther
        have hPipe : p ≠ q := by
          rintro rfl
          cases hp.symm.trans hq
          exact hNe rfl
        refine ⟨q, hq, fun e => (hOpen _ _).mpr ⟨?_, ?_, hOther e⟩⟩
        · intro hSame
          have hFile := hOther e
          rw [hSame] at hFile
          cases hFile.symm.trans (hEnds .write)
          exact hPipe rfl
        · intro hSame
          have hFile := hOther e
          rw [hSame] at hFile
          cases hFile.symm.trans (hEnds .read)
          exact hPipe rfl
    · obtain ⟨hWriteNe, hReadNe, hFd⟩ := (hOpen fd _).mp hFd
      obtain ⟨other, fds', hOther, hq, rfl⟩ := h.listed fd q e hFd
      refine ⟨other, fds', ?_, hq, rfl⟩
      rw [lookup_filter, if_neg]
      · exact hOther
      · rintro rfl
        cases hOther.symm.trans hLookup
        cases e with
        | read => exact hReadNe rfl
        | write => exact hWriteNe rfl

-- ---------------------------------------------------------------------------
-- Other files
-- ---------------------------------------------------------------------------

/-- A table with the same ends of pipes. -/
theorem Ok.congr {table : FdTable File} (h : k.Ok request)
    (hNonneg : ∀ fd f, table fd = some f → 0 ≤ fd)
    (hStanding : ∀ fd, Libsbox.standing fd = true → table fd = some .other)
    (hEnds : ∀ fd p e, table fd = some (.pipe p e) ↔ k.table fd = some (.pipe p e)) :
    { k with table }.Ok request where
  nonneg := hNonneg
  standing := hStanding
  wired := fun name fds hLookup => by
    obtain ⟨p, hp, hOpen⟩ := h.wired name fds hLookup
    exact ⟨p, hp, fun e => (hEnds _ _ _).mpr (hOpen e)⟩
  listed := fun fd p e hOpen => h.listed fd p e ((hEnds fd p e).mp hOpen)
  past := h.past
  once := h.once

theorem Ok.openFile {t : FdTable File} (h : k.Ok request) (hOpened : k.table.Opened .other fd t) :
    { k with table := t }.Ok request := by
  refine h.congr (fun n f hOpen => ?_) (fun n hStanding => ?_) fun n p e => ⟨fun hOpen => ?_, ?_⟩
  · rcases hOpened.cases hOpen with ⟨rfl, -⟩ | ⟨-, hOpen⟩
    · exact hOpened.nonneg
    · exact h.nonneg n f hOpen
  · exact hOpened.extends _ _ (h.standing n hStanding)
  · rcases hOpened.cases hOpen with ⟨-, hFile⟩ | ⟨-, hOpen⟩
    · cases hFile
    · exact hOpen
  · exact hOpened.extends _ _

theorem Ok.closeFile {t : FdTable File} (h : k.Ok request) (hStanding : Libsbox.standing fd = false)
    (hOther : k.table fd = some .other) (hClose : k.table.close fd = some t) :
    { k with table := t }.Ok request := by
  refine h.congr (fun n f hOpen => ?_) (fun n hn => ?_) fun n p e => ?_
  · exact h.nonneg n f ((FdTable.close_open hClose).mp hOpen).2
  · refine (FdTable.close_open hClose).mpr ⟨?_, h.standing n hn⟩
    rintro rfl
    rw [hStanding] at hn
    cases hn
  · rw [FdTable.close_open hClose, and_iff_right_iff_imp]
    rintro hOpen rfl
    cases hOther.symm.trans hOpen

/-- The next request begins without pipes. -/
theorem Ok.next (h : k.Ok request) (hEmpty : k.pipes = []) :
    k.Ok (request + 1) ∧ k.Complete (request + 1) := by
  refine ⟨⟨h.nonneg, h.standing, fun name fds hLookup => ?_, fun fd p e hOpen => ?_,
    fun entry hEntry => ?_, h.once⟩, fun name hName => ?_⟩
  · rw [hEmpty] at hLookup
    cases hLookup
  · exact absurd hOpen (h.no_ends hEmpty fd p e)
  · exact Nat.le_succ_of_le (h.past entry hEntry)
  · have hPast : request + 1 ≤ request := h.past _ hName
    omega

end Pipework

end Libsbox
