import Libsbox.Ids.SharedPool
import Libsbox.Lib.Monitor

/-!
# libsbox — the id getter behind its mutex

`SharedIdGetter::get` and `put` line by line: the processes of all workers call them, one
of them at a time gets `mutex_`, and any of them can be killed on any line. A mutex in
shared memory that is not robust stays locked when its owner ends, also when the owner
calls `die` on the line behind the lock.

## Results

* `whole_get_iff`, `whole_put_iff` — the lines of a call make up the call of the pool.
* `pool_of_reachable` — the calls that have returned are those of a `SharedPool`.
* `mutex_of_reachable` — no id is with two processes, whoever is killed wherever.
* `stuck_iff` — when the mutex stays locked for good.
-/

namespace Libsbox

open Runs Monitor

inductive GetterCall where
  | get
  | put (id : Uid)
  deriving DecidableEq

/-- The lines of `get` and of `put`. -/
inductive GetterAt where
  | getTest
  | getDecrement
  | getReturn
  | putTest (id : Uid)
  | putStore (id : Uid)
  | putIncrement
  | putReturn
  deriving DecidableEq

namespace IdGetter

variable {count : Nat}

/-- The lines behind `std::unique_lock lock(mutex_)`. `get` returns an id. -/
def code (count : Nat) : Code (IdGetter count) GetterAt GetterCall (Option Uid) where
  enter
    | .get => .getTest
    | .put id => .putTest id
  next p
    | .getTest => if p.stackHead = 0 then .dies else .goesOn p .getDecrement
    -- behind the test the head is not 0
    | .getDecrement =>
      .goesOn ⟨p.idsStack, p.stackHead - 1, Nat.le_trans (Nat.sub_le ..) p.head_le⟩ .getReturn
    | .getReturn =>
      if h : p.stackHead < count then .returns (some (p.idsStack.get ⟨p.stackHead, h⟩)) else .dies
    | .putTest id => if p.stackHead = count then .dies else .goesOn p (.putStore id)
    | .putStore id =>
      if h : p.stackHead < count then
        .goesOn ⟨p.idsStack.set p.stackHead id h, p.stackHead, p.head_le⟩ .putIncrement
      else .dies
    | .putIncrement =>
      if h : p.stackHead < count then .goesOn ⟨p.idsStack, p.stackHead + 1, h⟩ .putReturn else .dies
    | .putReturn => .returns none

variable {p p' : IdGetter count} {place : GetterAt} {id : Uid} {value : Option Uid}

/-- Where a `get` can be that nobody interrupts. -/
theorem partly_get (h : Partly (code count) .get p p' place) :
    place = .getTest ∧ p' = p ∨ p.stackHead ≠ 0 ∧ (place = .getDecrement ∧ p' = p ∨
      place = .getReturn ∧ p'.idsStack = p.idsStack ∧ p'.stackHead = p.stackHead - 1) := by
  induction h with
  | begins => exact .inl ⟨rfl, rfl⟩
  | goesOn _ hNext ih =>
    rcases ih with ⟨rfl, rfl⟩ | ⟨hNot, ⟨rfl, rfl⟩ | ⟨rfl, -⟩⟩
    · simp only [code] at hNext
      split at hNext
      · cases hNext
      · rename_i hNot
        cases hNext
        exact .inr ⟨hNot, .inl ⟨rfl, rfl⟩⟩
    · cases hNext
      exact .inr ⟨hNot, .inr ⟨rfl, rfl, rfl⟩⟩
    · simp only [code] at hNext
      split at hNext <;> cases hNext

/-- Where a `put` can be. -/
theorem partly_put (h : Partly (code count) (.put id) p p' place) :
    place = .putTest id ∧ p' = p ∨ ∃ hRoom : p.stackHead < count,
      place = .putStore id ∧ p' = p ∨
      place = .putIncrement ∧ p' = ⟨p.idsStack.set p.stackHead id hRoom, p.stackHead, p.head_le⟩ ∨
      place = .putReturn ∧ p' = ⟨p.idsStack.set p.stackHead id hRoom, p.stackHead + 1, hRoom⟩ := by
  induction h with
  | begins => exact .inl ⟨rfl, rfl⟩
  | @goesOn t t' place place' _ hNext ih =>
    rcases ih with ⟨rfl, rfl⟩ | ⟨hRoom, ⟨rfl, rfl⟩ | ⟨rfl, rfl⟩ | ⟨rfl, -⟩⟩
    · simp only [code] at hNext
      split at hNext
      · cases hNext
      · rename_i hNot
        cases hNext
        have hLe := t.head_le
        exact .inr ⟨by omega, .inl ⟨rfl, rfl⟩⟩
    · simp only [code, dif_pos hRoom] at hNext
      cases hNext
      exact .inr ⟨hRoom, .inr (.inl ⟨rfl, rfl⟩)⟩
    · simp only [code, dif_pos hRoom] at hNext
      cases hNext
      exact .inr ⟨hRoom, .inr (.inr ⟨rfl, rfl⟩)⟩
    · cases hNext

/-- The lines of `get` make up `get`. -/
theorem get_of_whole (h : Whole (code count) .get p value p') :
    ∃ id, value = some id ∧ p.get = .ok (id, p') := by
  obtain ⟨place, hPartly, hReturns⟩ := h
  rcases partly_get hPartly with ⟨rfl, rfl⟩ | ⟨hNot, ⟨rfl, rfl⟩ | ⟨rfl, hStack, hHead⟩⟩
  · simp only [code] at hReturns
    split at hReturns <;> cases hReturns
  · cases hReturns
  · have hLe := p.head_le
    have hLt : p'.stackHead < count := by omega
    obtain ⟨idsStack, stackHead, hHeadLe⟩ := p'
    dsimp only at hStack hHead hLt
    subst hStack hHead
    simp only [code, dif_pos hLt] at hReturns
    cases hReturns
    exact ⟨_, rfl, dif_neg hNot⟩

/-- The lines of `put` make up `put`. -/
theorem put_of_whole (h : Whole (code count) (.put id) p value p') :
    value = none ∧ p.put id = .ok p' := by
  obtain ⟨place, hPartly, hReturns⟩ := h
  rcases partly_put hPartly with ⟨rfl, rfl⟩ | ⟨hRoom, ⟨rfl, rfl⟩ | ⟨rfl, rfl⟩ | ⟨rfl, rfl⟩⟩
  · simp only [code] at hReturns
    split at hReturns <;> cases hReturns
  · simp only [code, dif_pos hRoom] at hReturns
    cases hReturns
  · simp only [code, dif_pos hRoom] at hReturns
    cases hReturns
  · cases hReturns
    exact ⟨rfl, dif_neg (Nat.ne_of_lt hRoom)⟩

end IdGetter

-- ---------------------------------------------------------------------------
-- Processes that call the getter
-- ---------------------------------------------------------------------------

namespace Mutex

variable {ι : Type} [DecidableEq ι]

/-- What a process has got and not put back, after one more call. -/
def hold (held : ι → List Uid) : ι × GetterCall × Option Uid → ι → List Uid
  | (i, .get, some id) => Function.update held i (id :: held i)
  | (_, .get, none) => held
  | (i, .put id, _) => Function.update held i ((held i).erase id)

/-- What each process has got and not put back. -/
def held (log : List (ι × GetterCall × Option Uid)) : ι → List Uid := log.foldl hold fun _ => []

/-- A process puts back only what it holds. -/
def May (log : List (ι × GetterCall × Option Uid)) (i : ι) : GetterCall → Prop
  | .get => True
  | .put id => id ∈ held log i

instance (log : List (ι × GetterCall × Option Uid)) (i : ι) (call : GetterCall) :
    Decidable (May log i call) :=
  match call with
  | .get => isTrue trivial
  | .put id => inferInstanceAs (Decidable (id ∈ held log i))

/-- The getter, its mutex, and the calls that have returned. -/
abbrev Guarded (ι : Type) (count : Nat) :=
  State ι (IdGetter count) GetterAt GetterCall (Option Uid)

abbrev GuardedAct (ι : Type) := Monitor.Act ι GetterCall

def step {count : Nat} : Guarded ι count → GuardedAct ι → Option (Guarded ι count) :=
  Monitor.step (IdGetter.code count) May

/-- `SharedIdGetter(start, count)`, before the first call. -/
def initial (start count : Uid) : Guarded ι count.toNat := { shared := .new start count.toNat }

variable {start count : Uid} {s s' : Guarded ι count.toNat}

theorem held_concat (log : List (ι × GetterCall × Option Uid)) (entry : ι × GetterCall × Option Uid) :
    held (log ++ [entry]) = hold (held log) entry := List.foldl_concat ..

/-- The calls that have returned are those of a pool whose calls are atomic. -/
theorem pool_of_serial {log : List (ι × GetterCall × Option Uid)} {getter : IdGetter count.toNat}
    (h : Serial (IdGetter.code count.toNat) May (.new start count.toNat) log getter) :
    Reachable SharedPool.step (.initial start count) ⟨getter, held log⟩ := by
  induction h with
  | nothing => exact ⟨[], rfl⟩
  | @snoc log t t' i call value _ hMay hCall ih =>
    rw [held_concat]
    cases call with
    | get =>
      obtain ⟨id, rfl, hGet⟩ := IdGetter.get_of_whole hCall
      refine ih.snoc (a := .get i) ?_
      simp only [SharedPool.step, hGet]
      rfl
    | put id =>
      obtain ⟨rfl, hPut⟩ := IdGetter.put_of_whole hCall
      refine ih.snoc (a := .put i id) ?_
      have hHeld : id ∈ held log i := hMay
      simp only [SharedPool.step, hPut, if_pos hHeld]
      rfl

/-- **The getter refines the pool.** -/
theorem pool_of_reachable (hReach : Reachable step (initial start count) s) :
    ∃ getter : IdGetter count.toNat,
      Reachable SharedPool.step (.initial start count) ⟨getter, held s.log⟩ ∧
      Behind (IdGetter.code count.toNat) May getter s := by
  have hRuns : Reachable (Monitor.step (IdGetter.code count.toNat) May)
      { shared := .new start count.toNat } s := hReach
  obtain ⟨getter, hSerial, hBehind⟩ := atomic_of_run hRuns
  exact ⟨getter, pool_of_serial hSerial, hBehind⟩

-- ---------------------------------------------------------------------------
-- Safety
-- ---------------------------------------------------------------------------

/-- No id is with two processes, and, while nobody is inside, none is lost. -/
structure Exclusive (start count : Uid) (s : Guarded ι count.toNat) : Prop where
  once : ∀ i, (held s.log i).Nodup
  apart : ∀ i j, i ≠ j → (held s.log i).Disjoint (held s.log j)
  range : ∀ i, ∀ id ∈ held s.log i, start.toNat ≤ id.toNat ∧ id.toNat < start.toNat + count.toNat
  free : s.lock = .free → Pool.Apart s.shared.toList (held s.log) ∧ ∀ id : Uid,
    Pool.Has s.shared.toList (held s.log) id ↔
      start.toNat ≤ id.toNat ∧ id.toNat < start.toNat + count.toNat

/-- **No id is with two processes**, on whatever line any of them is, and whichever have
been killed. -/
theorem mutex_of_reachable (hFits : start.toNat + count.toNat ≤ 2 ^ 32)
    (hReach : Reachable step (initial start count) s) : Exclusive start count s := by
  obtain ⟨getter, hPool, hBehind⟩ := pool_of_reachable hReach
  obtain ⟨hApart, hHas⟩ := SharedPool.reachable_ids hFits hPool
  refine ⟨hApart.held_nodup, hApart.apart, fun i id hHeld => ?_, fun hFree => ?_⟩
  · exact (SharedPool.mem_new_iff hFits).mp ((hHas id).mp (.inr ⟨i, hHeld⟩))
  · simp only [Behind, hFree] at hBehind
    rw [hBehind]
    exact ⟨hApart, fun id => (hHas id).trans (SharedPool.mem_new_iff hFits)⟩

-- ---------------------------------------------------------------------------
-- A mutex that stays locked
-- ---------------------------------------------------------------------------

/-- A process is killed inside, or it wants an id where all are held. -/
def LocksOut (start count : Uid) (s : Guarded ι count.toNat) (a : GuardedAct ι) : Prop :=
  ∃ i call place, s.lock = .inside i call place ∧
    (a = .kill i ∨ a = .next ∧ place = .getTest ∧ ∀ id : Uid, start.toNat ≤ id.toNat →
      id.toNat < start.toNat + count.toNat → ∃ j, id ∈ held s.log j)

/-- An empty stack: all ids are held. -/
theorem empty_iff (hFits : start.toNat + count.toNat ≤ 2 ^ 32) {getter : IdGetter count.toNat}
    {log : List (ι × GetterCall × Option Uid)}
    (hPool : Reachable SharedPool.step (.initial start count) ⟨getter, held log⟩) :
    getter.stackHead = 0 ↔ ∀ id : Uid, start.toNat ≤ id.toNat →
      id.toNat < start.toNat + count.toNat → ∃ j, id ∈ held log j := by
  obtain ⟨hApart, hHas⟩ := SharedPool.reachable_ids hFits hPool
  have hLength : getter.toList.length = getter.stackHead := by
    have hLe := getter.head_le
    rw [IdGetter.toList, List.length_reverse, List.length_take, Vector.length_toList]
    omega
  constructor
  · intro hZero id hLow hHigh
    have hNone : getter.toList = [] := List.length_eq_zero_iff.mp (hLength.trans hZero)
    refine ((hHas id).mpr ((SharedPool.mem_new_iff hFits).mpr ⟨hLow, hHigh⟩)).resolve_left ?_
    show id ∉ getter.toList
    rw [hNone]
    exact List.not_mem_nil
  · intro hAll
    rw [← hLength, List.length_eq_zero_iff]
    by_contra hSome
    obtain ⟨id, hFree⟩ := List.exists_mem_of_ne_nil _ hSome
    obtain ⟨hLow, hHigh⟩ := (SharedPool.mem_new_iff hFits).mp ((hHas id).mp (.inl hFree))
    obtain ⟨j, hHeld⟩ := hAll id hLow hHigh
    exact hApart.unheld j hFree hHeld

/-- The only line on which a process dies by itself is the test of `get`, when all ids
are held. -/
theorem dies_iff (hFits : start.toNat + count.toNat ≤ 2 ^ 32)
    (hReach : Reachable step (initial start count) s) {i : ι} {call : GetterCall} {place : GetterAt}
    (hInside : s.lock = .inside i call place) :
    (IdGetter.code count.toNat).next s.shared place = .dies ↔ place = .getTest ∧
      ∀ id : Uid, start.toNat ≤ id.toNat → id.toNat < start.toNat + count.toNat →
        ∃ j, id ∈ held s.log j := by
  obtain ⟨getter, hPool, hBehind⟩ := pool_of_reachable hReach
  simp only [Behind, hInside] at hBehind
  obtain ⟨hMay, hPartly⟩ := hBehind
  rw [← empty_iff hFits hPool]
  cases call with
  | get =>
    rcases IdGetter.partly_get hPartly with ⟨rfl, hSame⟩ | ⟨hNot, ⟨rfl, hSame⟩ | ⟨rfl, -, hHead⟩⟩
    · rw [hSame]
      simp [IdGetter.code]
    · simp [IdGetter.code]
    · have hLe := getter.head_le
      have hLt : s.shared.stackHead < count.toNat := by omega
      simp [IdGetter.code, hLt]
  | put id =>
    have hRoom : getter.toList.length < count.toNat := SharedPool.room_of_held hFits hPool hMay
    rcases IdGetter.partly_put hPartly with ⟨rfl, hSame⟩ | ⟨hRoom', ⟨rfl, hSame⟩ | ⟨rfl, hSame⟩ | ⟨rfl, hSame⟩⟩
    · have hNot : getter.stackHead ≠ count.toNat := by
        intro hFull
        rw [IdGetter.toList, List.length_reverse, List.length_take, Vector.length_toList, hFull] at hRoom
        omega
      rw [hSame]
      simp [IdGetter.code, hNot]
    · rw [hSame]
      simp [IdGetter.code, hRoom']
    · rw [hSame]
      simp [IdGetter.code, hRoom']
    · simp [IdGetter.code]

/-- **When nobody gets an id any more.** The mutex stays locked exactly if a process has
been killed inside, or has called `get` where all ids were held; and from then on no
call returns. -/
theorem stuck_iff (hFits : start.toNat + count.toNat ≤ 2 ^ 32) {acts : List (GuardedAct ι)}
    (hRun : run step (initial start count) acts = some s) :
    (s.lock = .stuck ↔ SomeStep step (LocksOut start count) (initial start count) acts) ∧
      (s.lock = .stuck → ∀ acts' s', run step s acts' = some s' → s' = s) := by
  refine ⟨stuck_iff_someStep (fun m a hReach => ?_) hRun, fun hStuck acts' s' hLater =>
    stuck_of_run hStuck hLater⟩
  unfold EndsInside LocksOut
  refine exists_congr fun i => exists_congr fun call => exists_congr fun place =>
    and_congr_right fun hInside => or_congr_right (and_congr_right fun _ => ?_)
  exact dies_iff hFits hReach hInside

/-- Two processes and one id; the second process wants it while the first one has it. -/
def lockoutRun : List (GuardedAct Bool) :=
  [.enter false .get, .next, .next, .next, .enter true .get, .next]

theorem mutex_of_lockoutRun :
    ∃ s : Guarded Bool (1 : Uid).toNat, run step (initial 5 1) lockoutRun = some s ∧
      Exclusive 5 1 s := by
  obtain ⟨s, hRun⟩ : ∃ s : Guarded Bool (1 : Uid).toNat,
      run step (initial 5 1) lockoutRun = some s := ⟨_, rfl⟩
  exact ⟨s, hRun, mutex_of_reachable (by decide) ⟨_, hRun⟩⟩

theorem stuck_of_lockoutRun :
    ∃ s : Guarded Bool (1 : Uid).toNat, run step (initial 5 1) lockoutRun = some s ∧
      SomeStep step (LocksOut 5 1) (initial 5 1) lockoutRun := by
  obtain ⟨s, hRun, hLock⟩ : ∃ s : Guarded Bool (1 : Uid).toNat,
      run step (initial 5 1) lockoutRun = some s ∧ s.lock = .stuck := ⟨_, rfl, rfl⟩
  exact ⟨s, hRun, (stuck_iff (by decide) hRun).1.mp hLock⟩

end Mutex

end Libsbox
