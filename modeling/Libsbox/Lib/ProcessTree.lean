import Mathlib.Algebra.GroupWithZero.Nat
import Mathlib.Algebra.Order.BigOperators.Group.List
import Mathlib.Algebra.Order.Group.Nat
import Mathlib.Data.List.Nodup

/-!
# The processes of a PID namespace

A namespace has a first process, `init`, which reaps what is left to it, and others
that fork, end and wait for their children. The children of a process that ends
become children of `init`. A process that was sent `SIGKILL` forks no more and ends
after some more steps.

## Results

* `Namespace.procs_eq_nil` — without a child of `init` there is no other process;
* `Namespace.move_weight`, `Namespace.reap_weight` — where all were killed, every step
  brings the end nearer;
* `Namespace.exists_move` — and some process can go on as long as there is one.
-/

namespace ProcessTree

abbrev Pid := Nat

/-- The pid of the first process. -/
def init : Pid := 1

/-- `dying left` is a process that was sent `SIGKILL` and has `left` steps to go. -/
inductive Life where
  | running
  | dying (left : Nat)
  | zombie
  deriving DecidableEq

structure Process where
  pid : Pid
  parent : Pid
  life : Life := .running
  deriving DecidableEq

/-- The parent of each process is `init` or an older one that has not ended. The newest
comes first. -/
def Rooted : List Process → Prop
  | [] => True
  | p :: older =>
    (p.parent = init ∨ ∃ q ∈ older, q.pid = p.parent ∧ q.life ≠ .zombie) ∧ Rooted older

/-- What a process other than `init` can do, or have done to it. The parent of a
`sibling` is the one of the process that forks. A process leaves no zombie where its
parent does not want to know. -/
inductive Move where
  | fork (p child : Pid) (sibling : Bool)
  | kill (p : Pid) (left : Nat)
  | die (p : Pid)
  | exit (p : Pid) (gone : Bool)
  | wait (p c : Pid)

/-- The processes other than `init`. -/
structure Namespace where
  procs : List Process
  nodup : (procs.map Process.pid).Nodup
  others : ∀ p ∈ procs, p.pid ≠ init
  rooted : Rooted procs

-- ---------------------------------------------------------------------------
-- Rooted lists
-- ---------------------------------------------------------------------------

section Rooted

variable {l : List Process} {f : Process → Option Process}

/-- Some oldest process is a child of `init`. -/
theorem Rooted.exists_child (h : Rooted l) (hNe : l ≠ []) :
    ∃ p ∈ l, p.parent = init := by
  induction l with
  | nil => exact absurd rfl hNe
  | cons p older ih =>
    obtain ⟨hInit | ⟨q, hMem, -, -⟩, hOlder⟩ := h
    · exact ⟨p, List.mem_cons_self, hInit⟩
    · obtain ⟨r, hr, hInit⟩ := ih hOlder (List.ne_nil_of_mem hMem)
      exact ⟨r, List.mem_cons_of_mem _ hr, hInit⟩

/-- The parent of a process is `init` or one that has not ended. -/
theorem Rooted.parent (h : Rooted l) {p : Process} (hp : p ∈ l) :
    p.parent = init ∨ ∃ q ∈ l, q.pid = p.parent ∧ q.life ≠ .zombie := by
  induction l with
  | nil => exact absurd hp List.not_mem_nil
  | cons r older ih =>
    obtain ⟨hParent, hOlder⟩ := h
    have hUp : (∃ q ∈ older, q.pid = p.parent ∧ q.life ≠ .zombie) →
        ∃ q ∈ r :: older, q.pid = p.parent ∧ q.life ≠ .zombie := by
      rintro ⟨q, hq, hLink⟩
      exact ⟨q, List.mem_cons_of_mem _ hq, hLink⟩
    rcases List.mem_cons.mp hp with rfl | hp
    · exact hParent.imp_right hUp
    · exact (ih hOlder hp).imp_right hUp

/-- An edit of the processes that keeps pids, moves nobody but to `init`, and lets no
process end that keeps a child. -/
structure Edit (l : List Process) (f : Process → Option Process) : Prop where
  pid : ∀ p ∈ l, ∀ p', f p = some p' → p'.pid = p.pid
  parent : ∀ p ∈ l, ∀ p', f p = some p' → p'.parent = init ∨ p'.parent = p.parent
  live : ∀ p ∈ l, ∀ p', f p = some p' → p'.parent ≠ init → ∀ q ∈ l, q.pid = p'.parent →
    q.life ≠ .zombie → ∃ q', f q = some q' ∧ q'.life ≠ .zombie

theorem Rooted.filterMap (h : Rooted l) (hEdit : Edit l f) : Rooted (l.filterMap f) := by
  induction l with
  | nil => trivial
  | cons p older ih =>
    obtain ⟨hParent, hOlder⟩ := h
    have hRest : Rooted (older.filterMap f) := by
      refine ih hOlder ⟨fun q hq => hEdit.pid q (List.mem_cons_of_mem _ hq),
        fun q hq => hEdit.parent q (List.mem_cons_of_mem _ hq), ?_⟩
      intro q hq q' hq' hNe r hr
      exact hEdit.live q (List.mem_cons_of_mem _ hq) q' hq' hNe r (List.mem_cons_of_mem _ hr)
    rw [List.filterMap_cons]
    split
    · exact hRest
    · rename_i p' hp'
      refine ⟨?_, hRest⟩
      by_cases hInit : p'.parent = init
      · exact .inl hInit
      · have hSame : p'.parent = p.parent :=
          (hEdit.parent p List.mem_cons_self p' hp').resolve_left hInit
        rcases hParent with hp | ⟨q, hq, hLink, hLive⟩
        · exact absurd (hSame.trans hp) hInit
        · have hq' := List.mem_cons_of_mem p hq
          obtain ⟨r, hr, hLive'⟩ :=
            hEdit.live p List.mem_cons_self p' hp' hInit q hq' (hLink.trans hSame.symm) hLive
          refine .inr ⟨r, List.mem_filterMap.mpr ⟨q, hq, hr⟩, ?_, hLive'⟩
          rw [hEdit.pid q hq' r hr, hLink, hSame]

theorem Edit.nodup (hEdit : Edit l f) (h : (l.map Process.pid).Nodup) :
    ((l.filterMap f).map Process.pid).Nodup := by
  refine h.sublist ?_
  have hSub : ((l.filterMap f).map Process.pid) =
      (l.filter fun p => (f p).isSome).map Process.pid := by
    clear h
    induction l with
    | nil => rfl
    | cons p older ih =>
      have hRest := ih ⟨fun q hq => hEdit.pid q (List.mem_cons_of_mem _ hq),
        fun q hq => hEdit.parent q (List.mem_cons_of_mem _ hq),
        fun q hq q' hq' hNe r hr =>
          hEdit.live q (List.mem_cons_of_mem _ hq) q' hq' hNe r (List.mem_cons_of_mem _ hr)⟩
      cases hp : f p with
      | none =>
        rw [List.filterMap_cons_none hp, List.filter_cons_of_neg (by simp [hp])]
        exact hRest
      | some p' =>
        rw [List.filterMap_cons_some hp, List.filter_cons_of_pos (by simp [hp]), List.map_cons,
          List.map_cons, hRest, hEdit.pid p List.mem_cons_self p' hp]
  rw [hSub]
  exact List.filter_sublist.map _

/-- Nobody ends and nobody moves. -/
theorem edit_setLife {g : Process → Life} (hLive : ∀ p ∈ l, p.life ≠ .zombie → g p ≠ .zombie) :
    Edit l fun p => some { p with life := g p } where
  pid := by
    rintro p - p' hp'
    rw [← Option.some.inj hp']
  parent := by
    rintro p - p' hp'
    rw [← Option.some.inj hp']
    exact .inr rfl
  live := fun _ _ _ _ _ q hq _ hAlive => ⟨_, rfl, hLive q hq hAlive⟩

end Rooted

-- ---------------------------------------------------------------------------
-- What the processes do
-- ---------------------------------------------------------------------------

namespace Namespace

def edit (ns : Namespace) (f : Process → Option Process) (hEdit : Edit ns.procs f) : Namespace where
  procs := ns.procs.filterMap f
  nodup := hEdit.nodup ns.nodup
  others := by
    intro p' hp'
    obtain ⟨p, hp, hf⟩ := List.mem_filterMap.mp hp'
    rw [hEdit.pid p hp p' hf]
    exact ns.others p hp
  rooted := ns.rooted.filterMap hEdit

/-- Nobody but `init`. -/
def empty : Namespace where
  procs := []
  nodup := List.nodup_nil
  others := fun _ h => absurd h List.not_mem_nil
  rooted := trivial

def find (ns : Namespace) (p : Pid) : Option Process := ns.procs.find? fun q => q.pid = p

/-- A process that has not ended, or `init`. -/
def IsParent (ns : Namespace) (p : Pid) : Prop :=
  p = init ∨ ∃ q ∈ ns.procs, q.pid = p ∧ q.life ≠ .zombie

/-- A pid that is not in use. -/
def Fresh (ns : Namespace) (p : Pid) : Prop := p ≠ init ∧ p ∉ ns.procs.map Process.pid

instance (ns : Namespace) (p : Pid) : Decidable (ns.IsParent p) := inferInstanceAs (Decidable (_ ∨ _))

instance (ns : Namespace) (p : Pid) : Decidable (ns.Fresh p) := inferInstanceAs (Decidable (_ ∧ _))

/-- A new process. -/
def spawn (ns : Namespace) (parent child : Pid) (hParent : ns.IsParent parent)
    (hFresh : ns.Fresh child) : Namespace where
  procs := { pid := child, parent } :: ns.procs
  nodup := List.nodup_cons.mpr ⟨hFresh.2, ns.nodup⟩
  others := by
    intro p hp
    rcases List.mem_cons.mp hp with rfl | hp
    · exact hFresh.1
    · exact ns.others p hp
  rooted := ⟨hParent, ns.rooted⟩

variable {ns ns' : Namespace} {p : Pid} {q : Process}

theorem find_eq_some (h : ns.find p = some q) : q ∈ ns.procs ∧ q.pid = p := by
  unfold find at h
  have hPid := List.find?_some h
  exact ⟨List.mem_of_find?_eq_some h, of_decide_eq_true hPid⟩

theorem eq_of_pid {r : Process} (hq : q ∈ ns.procs) (hr : r ∈ ns.procs) (h : q.pid = r.pid) :
    q = r := List.inj_on_of_nodup_map ns.nodup hq hr h

theorem find_of_mem (h : q ∈ ns.procs) : ns.find q.pid = some q := by
  cases hFind : ns.find q.pid with
  | none =>
    have hNot := List.find?_eq_none.mp hFind q h
    exact absurd (decide_eq_true rfl) hNot
  | some r =>
    obtain ⟨hr, hPid⟩ := find_eq_some hFind
    rw [eq_of_pid hr h hPid]

/-- The life of the processes changes, but none ends. -/
def setLife (ns : Namespace) (g : Process → Life)
    (hLive : ∀ p ∈ ns.procs, p.life ≠ .zombie → g p ≠ .zombie) : Namespace :=
  ns.edit (fun p => some { p with life := g p }) (edit_setLife hLive)

/-- `SIGKILL` for one process. -/
def killed (p : Pid) (left : Nat) (q : Process) : Life :=
  if q.pid = p ∧ q.life = .running then .dying left else q.life

/-- A step of a dying process. -/
def dying (p : Pid) (q : Process) : Life :=
  match q.life with
  | .dying (left + 1) => if q.pid = p then .dying left else q.life
  | life => life

/-- `SIGKILL` for everybody. -/
def killedAll (left : Pid → Nat) (q : Process) : Life :=
  match q.life with
  | .running => .dying (left q.pid)
  | life => life

theorem killed_live (left : Nat) (h : q.life ≠ .zombie) : killed p left q ≠ .zombie := by
  unfold killed
  split
  · nofun
  · exact h

theorem dying_live (h : q.life ≠ .zombie) : dying p q ≠ .zombie := by
  unfold dying
  split
  · split
    · nofun
    · exact h
  · exact h

theorem killedAll_live (left : Pid → Nat) (h : q.life ≠ .zombie) : killedAll left q ≠ .zombie := by
  unfold killedAll
  split
  · nofun
  · exact h

/-- `kill(-1, SIGKILL)` of `init`. -/
def killAll (ns : Namespace) (left : Pid → Nat) : Namespace :=
  ns.setLife (killedAll left) fun _ _ => killedAll_live left

/-- What becomes of a child of `p` when `p` ends. -/
def orphan (p : Pid) (q : Process) : Process := if q.parent = p then { q with parent := init } else q

/-- What becomes of a process when `p` ends. A `gone` one leaves no zombie. -/
def afterExit (p : Pid) (gone : Bool) (q : Process) : Option Process :=
  if q.pid ≠ p then some (orphan p q)
  else if gone then none
  else some { orphan p q with life := .zombie }

theorem orphan_pid (p : Pid) (q : Process) : (orphan p q).pid = q.pid := by
  unfold orphan
  split <;> rfl

theorem orphan_parent (p : Pid) (q : Process) :
    (orphan p q).parent = init ∨ (orphan p q).parent = q.parent ∧ q.parent ≠ p := by
  unfold orphan
  split
  · exact .inl rfl
  · rename_i hNe
    exact .inr ⟨rfl, hNe⟩

theorem orphan_life (p : Pid) (q : Process) : (orphan p q).life = q.life := by
  unfold orphan
  split <;> rfl

/-- What is left of a process has the pid and the parent of its orphan. -/
theorem afterExit_eq_some {gone : Bool} {q' : Process} (h : afterExit p gone q = some q') :
    q'.pid = q.pid ∧ q'.parent = (orphan p q).parent ∧
      q'.life = if q.pid = p then .zombie else q.life := by
  unfold afterExit at h
  split at h
  · rename_i hNe
    rw [← Option.some.inj h, if_neg hNe]
    exact ⟨orphan_pid p q, rfl, orphan_life p q⟩
  · rename_i hEq
    split at h
    · cases h
    · rw [← Option.some.inj h, if_pos (not_not.mp hEq)]
      exact ⟨orphan_pid p q, rfl, rfl⟩

theorem edit_afterExit (l : List Process) (p : Pid) (gone : Bool) : Edit l (afterExit p gone) where
  pid := fun _ _ _ h => (afterExit_eq_some h).1
  parent := by
    intro q _ q' h
    rw [(afterExit_eq_some h).2.1]
    exact (orphan_parent p q).imp_right And.left
  live := by
    intro q _ q' h hNe r _ hLink hLive
    rw [(afterExit_eq_some h).2.1] at hNe hLink
    obtain ⟨hParent, hOther⟩ := (orphan_parent p q).resolve_left hNe
    have hr : r.pid ≠ p := by
      rw [hLink, hParent]
      exact hOther
    refine ⟨orphan p r, if_pos hr, ?_⟩
    rw [orphan_life]
    exact hLive

/-- `p` ends. -/
def exit (ns : Namespace) (p : Pid) (gone : Bool) : Namespace :=
  ns.edit (afterExit p gone) (edit_afterExit ns.procs p gone)

/-- A zombie that can be waited for by `parent`. -/
def Reapable (ns : Namespace) (parent c : Pid) : Prop :=
  ∃ z ∈ ns.procs, z.pid = c ∧ z.parent = parent ∧ z.life = .zombie

instance (ns : Namespace) (parent c : Pid) : Decidable (ns.Reapable parent c) :=
  inferInstanceAs (Decidable (∃ z ∈ ns.procs, _))

def without (c : Pid) (q : Process) : Option Process := if q.pid = c then none else some q

/-- A zombie is nobody's parent. -/
theorem edit_without {parent c : Pid} (h : ns.Reapable parent c) : Edit ns.procs (without c) := by
  have hSame : ∀ {q q' : Process}, without c q = some q' → q' = q := by
    intro q q' hq
    unfold without at hq
    split at hq
    · cases hq
    · exact (Option.some.inj hq).symm
  refine ⟨fun q _ q' hq => by rw [hSame hq], fun q _ q' hq => .inr (by rw [hSame hq]), ?_⟩
  intro q _ q' _ _ r hr _ hLive
  obtain ⟨z, hz, rfl, -, hZombie⟩ := h
  refine ⟨r, if_neg fun hPid => ?_, hLive⟩
  rw [eq_of_pid hr hz hPid] at hLive
  exact hLive hZombie

/-- `parent` waits for the zombie `c`. -/
def reap (ns : Namespace) (parent c : Pid) (h : ns.Reapable parent c) : Namespace :=
  ns.edit (without c) (edit_without h)

-- ---------------------------------------------------------------------------
-- Moves
-- ---------------------------------------------------------------------------

/-- The parent of what `q` forks. -/
def forkParent (q : Process) (sibling : Bool) : Pid := if sibling then q.parent else q.pid

theorem isParent_forkParent (h : ns.find p = some q) (hRunning : q.life = .running)
    (sibling : Bool) : ns.IsParent (forkParent q sibling) := by
  obtain ⟨hq, -⟩ := find_eq_some h
  unfold forkParent
  split
  · exact ns.rooted.parent hq
  · exact .inr ⟨q, hq, rfl, by rw [hRunning]; nofun⟩

def move (ns : Namespace) : Move → Option Namespace
  | .fork p child sibling =>
    match hFind : ns.find p with
    | none => none
    | some q =>
      if h : q.life = .running ∧ ns.Fresh child then
        some (ns.spawn (forkParent q sibling) child (isParent_forkParent hFind h.1 sibling) h.2)
      else none
  | .kill p left =>
    match ns.find p with
    | some ⟨_, _, .running⟩ => some (ns.setLife (killed p left) fun _ _ => killed_live left)
    | _ => none
  | .die p =>
    match ns.find p with
    | some ⟨_, _, .dying (_ + 1)⟩ => some (ns.setLife (dying p) fun _ _ => dying_live)
    | _ => none
  | .exit p gone =>
    match ns.find p with
    | none => none
    | some q =>
      if (q.life = .running ∨ q.life = .dying 0) ∧ (gone = true → q.parent ≠ init) then
        some (ns.exit p gone)
      else none
  | .wait p c =>
    match ns.find p with
    | none => none
    | some q =>
      if h : q.life ≠ .zombie ∧ ns.Reapable p c then some (ns.reap p c h.2) else none

/-- Where there is nobody, nobody moves. -/
theorem move_eq_none (h : ns.procs = []) (m : Move) : ns.move m = none := by
  have hFind : ∀ p, ns.find p = none := by
    intro p
    rw [find, h]
    rfl
  cases m <;> simp only [move, hFind]
  split
  · rfl
  · rename_i hSome
    rw [hFind] at hSome
    cases hSome

-- ---------------------------------------------------------------------------
-- The end of all processes
-- ---------------------------------------------------------------------------

/-- Without a child of `init` there is no process but `init`. -/
theorem procs_eq_nil (h : ∀ q ∈ ns.procs, q.parent ≠ init) : ns.procs = [] := by
  by_contra hNe
  obtain ⟨q, hq, hInit⟩ := ns.rooted.exists_child hNe
  exact h q hq hInit

/-- Every process was sent `SIGKILL` or has ended. -/
def Doomed (ns : Namespace) : Prop := ∀ q ∈ ns.procs, q.life ≠ .running

theorem doomed_killAll (left : Pid → Nat) : (ns.killAll left).Doomed := by
  intro q' hq'
  obtain ⟨q, -, hf⟩ := List.mem_filterMap.mp hq'
  rw [← Option.some.inj hf]
  show killedAll left q ≠ .running
  unfold killedAll
  split
  · nofun
  · assumption

end Namespace

/-- The steps that a killed process has to go, the last one being that it is waited
for. -/
def Life.weight : Life → Nat
  | .running => 0
  | .dying left => left + 2
  | .zombie => 1

/-- The weight of what an edit leaves of a process. -/
def leftOver (q : Option Process) : Nat := (q.map fun q => q.life.weight).getD 0

namespace Namespace

def weight (ns : Namespace) : Nat := (ns.procs.map fun q => q.life.weight).sum

/-- An edit that starts nothing and brings one process nearer to its end. -/
structure Wears (l : List Process) (f : Process → Option Process) : Prop where
  life : ∀ q ∈ l, q.life ≠ .running → ∀ q', f q = some q' → q'.life ≠ .running
  le : ∀ q ∈ l, leftOver (f q) ≤ q.life.weight
  lt : ∃ q ∈ l, leftOver (f q) < q.life.weight

variable {ns ns' : Namespace} {f : Process → Option Process}

theorem sum_filterMap (l : List Process) (f : Process → Option Process) :
    ((l.filterMap f).map fun q => q.life.weight).sum = (l.map fun q => leftOver (f q)).sum := by
  induction l with
  | nil => rfl
  | cons q older ih =>
    rw [List.map_cons, List.sum_cons, ← ih]
    cases hq : f q with
    | none => rw [List.filterMap_cons_none hq, leftOver, Option.map_none, Option.getD_none, zero_add]
    | some q' => rw [List.filterMap_cons_some hq, List.map_cons, List.sum_cons]; rfl

/-- What an edit that wears does to the weight of killed processes. -/
theorem Wears.edit (hEdit : Edit ns.procs f) (h : Wears ns.procs f) (hDoomed : ns.Doomed) :
    (ns.edit f hEdit).Doomed ∧ (ns.edit f hEdit).weight < ns.weight := by
  constructor
  · intro q' hq'
    obtain ⟨q, hq, hf⟩ := List.mem_filterMap.mp hq'
    exact h.life q hq (hDoomed q hq) q' hf
  · show ((ns.procs.filterMap f).map fun q => q.life.weight).sum < _
    rw [sum_filterMap]
    exact List.sum_lt_sum _ _ h.le h.lt

theorem wears_dying {l : List Process} {p : Pid} {left : Nat} {q : Process} (hq : q ∈ l)
    (hPid : q.pid = p) (hLife : q.life = .dying (left + 1)) :
    Wears l fun q => some { q with life := dying p q } := by
  refine ⟨?_, ?_, q, hq, ?_⟩
  · intro r _ hLive r' hr'
    rw [← Option.some.inj hr']
    show dying p r ≠ .running
    unfold dying
    split
    · split
      · nofun
      · exact hLive
    · exact hLive
  · intro r _
    show (dying p r).weight ≤ r.life.weight
    unfold dying
    split
    · rename_i hDying
      split
      · rw [hDying]
        exact Nat.le_succ _
      · exact le_refl _
    · exact le_refl _
  · show (dying p q).weight < q.life.weight
    rw [dying, hLife]
    show (if q.pid = p then Life.dying left else _).weight < left + 1 + 2
    rw [if_pos hPid]
    exact Nat.lt_succ_self _

theorem leftOver_afterExit_le (p : Pid) (gone : Bool) (q : Process) (hLive : q.life ≠ .running) :
    leftOver (afterExit p gone q) ≤ q.life.weight := by
  cases hExit : afterExit p gone q with
  | none => exact Nat.zero_le _
  | some q' =>
    obtain ⟨-, -, hLife⟩ := afterExit_eq_some hExit
    show q'.life.weight ≤ q.life.weight
    rw [hLife]
    split
    · cases hq : q.life with
      | running => exact absurd hq hLive
      | dying left => exact Nat.le_add_left 1 (left + 1)
      | zombie => exact le_refl _
    · exact le_refl _

theorem wears_afterExit (hDoomed : ns.Doomed) {p : Pid} {gone : Bool} {q : Process}
    (hq : q ∈ ns.procs) (hPid : q.pid = p) (hLife : q.life = .dying 0) :
    Wears ns.procs (afterExit p gone) := by
  refine ⟨?_, fun r hr => leftOver_afterExit_le p gone r (hDoomed r hr), q, hq, ?_⟩
  · intro r _ hLive r' hr'
    rw [(afterExit_eq_some hr').2.2]
    split
    · nofun
    · exact hLive
  · rw [hLife]
    cases hExit : afterExit p gone q with
    | none => exact Nat.zero_lt_succ _
    | some q' =>
      show q'.life.weight < _
      rw [(afterExit_eq_some hExit).2.2, if_pos hPid]
      exact Nat.lt_succ_self _

theorem wears_without {parent c : Pid} (h : ns.Reapable parent c) :
    Wears ns.procs (without c) := by
  obtain ⟨z, hz, hPid, -, hZombie⟩ := h
  refine ⟨?_, ?_, z, hz, ?_⟩
  · intro q _ hLive q' hq'
    unfold without at hq'
    split at hq'
    · cases hq'
    · exact Option.some.inj hq' ▸ hLive
  · intro q _
    unfold without
    split
    · exact Nat.zero_le _
    · exact le_refl _
  · rw [without, if_pos hPid, hZombie]
    exact Nat.zero_lt_succ _

/-- **A move of killed processes** brings their end nearer. -/
theorem move_weight {m : Move} (hDoomed : ns.Doomed) (h : ns.move m = some ns') :
    ns'.Doomed ∧ ns'.weight < ns.weight := by
  match m with
  | .fork p child sibling =>
    simp only [move] at h
    split at h
    · cases h
    · rename_i q hFind
      split at h
      · rename_i hRunning
        exact absurd hRunning.1 (hDoomed q (find_eq_some hFind).1)
      · cases h
  | .kill p left =>
    simp only [move] at h
    split at h
    · rename_i hFind
      exact absurd rfl (hDoomed _ (find_eq_some hFind).1)
    · cases h
  | .die p =>
    simp only [move] at h
    split at h
    · rename_i hFind
      obtain ⟨hq, hPid⟩ := find_eq_some hFind
      obtain rfl := Option.some.inj h
      exact (wears_dying hq hPid rfl).edit _ hDoomed
    · cases h
  | .exit p gone =>
    simp only [move] at h
    split at h
    · cases h
    · rename_i q hFind
      obtain ⟨hq, hPid⟩ := find_eq_some hFind
      split at h
      · rename_i hEnds
        obtain rfl := Option.some.inj h
        exact (wears_afterExit hDoomed hq hPid (hEnds.1.resolve_left (hDoomed q hq))).edit _ hDoomed
      · cases h
  | .wait p c =>
    simp only [move] at h
    split at h
    · cases h
    · split at h
      · rename_i hWaits
        obtain rfl := Option.some.inj h
        exact (wears_without hWaits.2).edit _ hDoomed
      · cases h

/-- So does `init`, when it waits for a child. -/
theorem reap_weight {parent c : Pid} (hDoomed : ns.Doomed) (h : ns.Reapable parent c) :
    (ns.reap parent c h).Doomed ∧ (ns.reap parent c h).weight < ns.weight :=
  (wears_without h).edit _ hDoomed

/-- Killed processes are not stuck: one of them can move or be waited for by `init`. -/
theorem exists_move (hDoomed : ns.Doomed) (hNe : ns.procs ≠ []) :
    (∃ c, ns.Reapable init c) ∨ ∃ m ns', ns.move m = some ns' := by
  obtain ⟨q, hq, hInit⟩ := ns.rooted.exists_child hNe
  have hFind := find_of_mem hq
  cases hLife : q.life with
  | running => exact absurd hLife (hDoomed q hq)
  | zombie => exact .inl ⟨q.pid, q, hq, rfl, hInit, hLife⟩
  | dying left =>
    right
    cases left with
    | zero =>
      refine ⟨.exit q.pid false, ns.exit q.pid false, ?_⟩
      simp only [move, hFind]
      rw [if_pos ⟨.inr hLife, nofun⟩]
    | succ left =>
      refine ⟨.die q.pid, ns.setLife (dying q.pid) fun _ _ => dying_live, ?_⟩
      obtain ⟨pid, parent, life⟩ := q
      obtain rfl : life = .dying (left + 1) := hLife
      simp only [move, hFind]

end Namespace

end ProcessTree
