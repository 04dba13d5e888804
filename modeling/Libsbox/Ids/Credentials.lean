import Libsbox.Lib.Runs
import Libsbox.Model.Config
import Libsbox.Model.System
import Mathlib.Data.List.Perm.Basic

/-!
# libsbox — ids and credentials

`SharedIdGetter` (shared_id_getter.cpp) as it lies in shared memory, an array and
the position of its head, and what `Container::setup_credentials` makes of an id
that comes out of it. `first_uid` is any `uint32_t`: `Config::load` checks its
type only.

## Results

* `IdGetter.get_spec`, `IdGetter.put_spec`, `toList_new` — the array is the stack of
  `SharedIdGetter`;
* `losesRoot_iff` — for which `first_uid` every slave loses root.
-/

namespace Libsbox

open CMemory JsonDoc Runs

-- ---------------------------------------------------------------------------
-- SharedIdGetter
-- ---------------------------------------------------------------------------

/-- `ids_stack_` and `stack_head_`, the number of free ids. -/
structure IdGetter (count : Nat) where
  idsStack : Vector Uid count
  stackHead : Nat
  head_le : stackHead ≤ count

namespace IdGetter

variable {count : Nat}

/-- What the constructor stores at `i`: `uid_t` arithmetic, but `i` is a `size_t`. -/
def element (start count : Uid) (i : Nat) : Uid :=
  ((start + count - 1).toUInt64 - UInt64.ofNat i).toUInt32

def new (start : Uid) (count : Nat) : IdGetter count where
  idsStack := Vector.ofFn fun i => element start (UInt32.ofNat count) i
  stackHead := count
  head_le := le_refl count

def get (p : IdGetter count) : Except Halt (Uid × IdGetter count) :=
  if h : p.stackHead = 0 then .error (.die (lit "Failed to get ID: stack is empty"))
  else
    have hLt : p.stackHead - 1 < count := by
      have := p.head_le
      omega
    .ok (p.idsStack.get ⟨p.stackHead - 1, hLt⟩, ⟨p.idsStack, p.stackHead - 1, hLt.le⟩)

/-- `%d`. -/
def signedDecimal (id : Uid) : Str := lit (toString id.toInt32.toInt)

def put (p : IdGetter count) (id : Uid) : Except Halt (IdGetter count) :=
  if h : p.stackHead = count then
    .error (.die (lit "Failed to put ID (" ++ signedDecimal id ++ lit "): stack is full"))
  else
    have hLt : p.stackHead < count := by
      have := p.head_le
      omega
    .ok ⟨p.idsStack.set p.stackHead id hLt, p.stackHead + 1, hLt⟩

/-- The free ids, the next one first. -/
def toList (p : IdGetter count) : List Uid := (p.idsStack.toList.take p.stackHead).reverse

/-- `get` takes the head of the stack and fails on an empty one. -/
theorem get_spec (p : IdGetter count) :
    (p.toList = [] ∧ p.get = .error (.die (lit "Failed to get ID: stack is empty"))) ∨
      ∃ id p', p.get = .ok (id, p') ∧ p.toList = id :: p'.toList := by
  have hLe := p.head_le
  by_cases hZero : p.stackHead = 0
  · refine .inl ⟨?_, dif_pos hZero⟩
    rw [toList, hZero]
    rfl
  · have hLt : p.stackHead - 1 < count := by omega
    refine .inr ⟨_, _, dif_neg hZero, ?_⟩
    have hLength : p.stackHead - 1 < p.idsStack.toList.length := by
      rw [Vector.length_toList]
      exact hLt
    have hTake := List.take_succ_eq_append_getElem hLength
    rw [show p.stackHead - 1 + 1 = p.stackHead by omega] at hTake
    show (p.idsStack.toList.take p.stackHead).reverse = _
    rw [hTake, List.reverse_append]
    rfl

/-- `put` makes the id the head of the stack and fails on a full one. -/
theorem put_spec (p : IdGetter count) (id : Uid) :
    (p.toList.length = count ∧ ∃ e, p.put id = .error e) ∨
      ∃ p', p.put id = .ok p' ∧ p'.toList = id :: p.toList := by
  have hLe := p.head_le
  by_cases hFull : p.stackHead = count
  · refine .inl ⟨?_, _, dif_pos hFull⟩
    rw [toList, List.length_reverse, List.length_take, Vector.length_toList]
    omega
  · have hLt : p.stackHead < count := by omega
    refine .inr ⟨_, dif_neg hFull, ?_⟩
    have hLength : p.stackHead < (p.idsStack.set p.stackHead id hLt).toList.length := by
      rw [Vector.length_toList]
      exact hLt
    show ((p.idsStack.set p.stackHead id hLt).toList.take (p.stackHead + 1)).reverse = _
    rw [List.take_succ_eq_append_getElem hLength, List.reverse_append]
    simp [toList, Vector.toList_set, List.take_set_of_le]

theorem element_eq (start count : Uid) (i : Nat) :
    element start count i = start + count - 1 - UInt32.ofNat i := by
  rw [element, UInt64.toUInt32_sub, UInt32.toUInt32_toUInt64, UInt64.toUInt32_ofNat']

/-- A new getter hands out `start`, then the ids behind it. -/
theorem toList_new (start : Uid) (count : Nat) :
    (new start count).toList = (SharedIdGetter.new start count).stack := by
  have hElement : ∀ k < count,
      element start (UInt32.ofNat count) (count - 1 - k) = start + UInt32.ofNat k := by
    intro k hk
    have hSum : count = k + 1 + (count - 1 - k) := by omega
    have hCount : UInt32.ofNat count = UInt32.ofNat k + 1 + UInt32.ofNat (count - 1 - k) := by
      conv_lhs => rw [hSum, UInt32.ofNat_add, UInt32.ofNat_add]
      rfl
    rw [element_eq, hCount]
    grind
  refine List.ext_getElem (by simp [toList, new, SharedIdGetter.new]) fun k hk _ => ?_
  have hk : k < count := by simpa [toList, new] using hk
  simp [toList, new, SharedIdGetter.new, hElement k hk]

end IdGetter

-- ---------------------------------------------------------------------------
-- Histories of the pool
-- ---------------------------------------------------------------------------

/-- The getter and the ids that its users hold. -/
structure IdPool where
  getter : IdGetter idCount
  held : List Uid := []

inductive IdCall where
  | get
  | put (id : Uid)

namespace IdPool

/-- The pool of `Daemon::prepare`. -/
def initial (config : Config) : IdPool := { getter := .new config.firstUid idCount }

/-- A call of a worker. It puts back only what it has got. -/
def step (p : IdPool) : IdCall → Option IdPool
  | .get =>
    match p.getter.get with
    | .ok (id, getter) => some ⟨getter, id :: p.held⟩
    | .error _ => none
  | .put id =>
    if id ∈ p.held then
      match p.getter.put id with
      | .ok getter => some ⟨getter, p.held.erase id⟩
      | .error _ => none
    else none

/-- After some history, `get` returns `id`. -/
def Hands (config : Config) (id : Uid) : Prop :=
  ∃ calls p getter, run step (initial config) calls = some p ∧ p.getter.get = .ok (id, getter)

variable {config : Config} {p p' : IdPool} {id : Uid}

/-- All ids, free and held. -/
def ids (p : IdPool) : List Uid := p.getter.toList ++ p.held

/-- **A call moves an id** between the stack and its user. -/
theorem step_ids {call : IdCall} (h : p.step call = some p') : p'.ids.Perm p.ids := by
  match call with
  | .get =>
    simp only [step] at h
    rcases p.getter.get_spec with ⟨-, hGet⟩ | ⟨id, getter, hGet, hList⟩
    · rw [hGet] at h
      cases h
    · rw [hGet] at h
      obtain rfl := Option.some.inj h
      show (getter.toList ++ id :: p.held).Perm (p.getter.toList ++ p.held)
      rw [hList]
      exact List.perm_middle
  | .put id =>
    simp only [step] at h
    split at h
    · rename_i hHeld
      rcases p.getter.put_spec id with ⟨-, e, hPut⟩ | ⟨getter, hPut, hList⟩
      · rw [hPut] at h
        cases h
      · rw [hPut] at h
        obtain rfl := Option.some.inj h
        show (getter.toList ++ p.held.erase id).Perm (p.getter.toList ++ p.held)
        rw [hList]
        exact List.perm_middle.symm.trans ((List.perm_cons_erase hHeld).symm.append_left _)
    · cases h

theorem ids_of_run {calls : List IdCall} (hRun : run step (initial config) calls = some p) :
    p.ids.Perm (SharedIdGetter.new config.firstUid idCount).stack := by
  refine invariant_of_reachable
    (I := fun p => p.ids.Perm (SharedIdGetter.new config.firstUid idCount).stack)
    (fun p a p' hIds hStep => (step_ids hStep).trans hIds) ?_ ⟨calls, hRun⟩
  show ((IdGetter.new config.firstUid idCount).toList ++ []).Perm _
  rw [List.append_nil, IdGetter.toList_new]

/-- `k` calls of `get` leave the ids behind the first `k`. -/
theorem exists_run_gets (p : IdPool) (k : Nat) (hk : k ≤ p.getter.toList.length) :
    ∃ calls p', run step p calls = some p' ∧ p'.getter.toList = p.getter.toList.drop k := by
  induction k with
  | zero => exact ⟨[], p, rfl, rfl⟩
  | succ k ih =>
    obtain ⟨calls, m, hRun, hDrop⟩ := ih (by omega)
    rcases m.getter.get_spec with ⟨hNil, -⟩ | ⟨id, getter, hGet, hList⟩
    · rw [hNil] at hDrop
      have := List.drop_eq_nil_iff.mp hDrop.symm
      omega
    · refine ⟨calls ++ [.get], ⟨getter, id :: m.held⟩, ?_, ?_⟩
      · rw [run_append, hRun]
        show (m.step .get).bind some = _
        simp only [step, hGet]
        rfl
      · have hTail : getter.toList = m.getter.toList.tail := by rw [hList, List.tail_cons]
        show getter.toList = _
        rw [hTail, hDrop, List.tail_drop]

/-- **The ids handed out**: each of the 256 from `first_uid` on, modulo 2³². -/
theorem hands_iff : Hands config id ↔ ∃ k < idCount, id = config.firstUid + UInt32.ofNat k := by
  constructor
  · rintro ⟨calls, p, getter, hRun, hGet⟩
    rcases p.getter.get_spec with ⟨-, hGet'⟩ | ⟨id', getter', hGet', hList⟩
    · rw [hGet'] at hGet
      cases hGet
    · obtain ⟨rfl, -⟩ := Prod.mk.inj (Except.ok.inj (hGet'.symm.trans hGet))
      have hFree : id' ∈ p.ids := by
        rw [ids, hList]
        exact List.mem_cons_self
      have hNew := (ids_of_run hRun).mem_iff.mp hFree
      obtain ⟨k, hk, rfl⟩ := List.mem_map.mp hNew
      exact ⟨k, List.mem_range.mp hk, rfl⟩
  · rintro ⟨k, hk, rfl⟩
    have hStack : (initial config).getter.toList =
        (SharedIdGetter.new config.firstUid idCount).stack := IdGetter.toList_new _ _
    have hLength : (initial config).getter.toList.length = idCount := by
      rw [hStack, SharedIdGetter.new, List.length_map, List.length_range]
    obtain ⟨calls, p, hRun, hDrop⟩ := exists_run_gets (initial config) k (by omega)
    have hHead : p.getter.toList.head? = some (config.firstUid + UInt32.ofNat k) := by
      rw [hDrop, List.head?_drop, hStack, SharedIdGetter.new, List.getElem?_map,
        List.getElem?_range hk]
      rfl
    rcases p.getter.get_spec with ⟨hNil, -⟩ | ⟨id, getter, hGet, hList⟩
    · rw [hNil] at hHead
      cases hHead
    · rw [hList] at hHead
      obtain rfl := Option.some.inj hHead
      exact ⟨calls, p, getter, hRun, hGet⟩

end IdPool

-- ---------------------------------------------------------------------------
-- Credentials
-- ---------------------------------------------------------------------------

/-- The credentials of a process. -/
structure Credentials where
  ruid : Uid
  euid : Uid
  suid : Uid
  rgid : Uid
  egid : Uid
  sgid : Uid
  groups : List Uid

namespace Credentials

/-- Of a process that the daemon, run by root, has forked. -/
def root (groups : List Uid) : Credentials := ⟨0, 0, 0, 0, 0, 0, groups⟩

/-- The argument of `setresuid` and `setresgid` that leaves an id as it is. -/
def unchanged : Uid := 0xffffffff

def keep (id old : Uid) : Uid := if id = unchanged then old else id

/-- `setresgid(id, id, id)`. Without privilege `id` has to be one of the old ones. -/
def setresgid (c : Credentials) (id : Uid) : Option Credentials :=
  if c.euid = 0 ∨ id ∈ [unchanged, c.rgid, c.egid, c.sgid] then
    some { c with rgid := keep id c.rgid, egid := keep id c.egid, sgid := keep id c.sgid }
  else none

/-- `setgroups`. -/
def setgroups (c : Credentials) (groups : List Uid) : Option Credentials :=
  if c.euid = 0 then some { c with groups } else none

/-- `setresuid(id, id, id)`. -/
def setresuid (c : Credentials) (id : Uid) : Option Credentials :=
  if c.euid = 0 ∨ id ∈ [unchanged, c.ruid, c.euid, c.suid] then
    some { c with ruid := keep id c.ruid, euid := keep id c.euid, suid := keep id c.suid }
  else none

end Credentials

/-- `EPERM`, the error of all three calls, as `what` reports it. -/
def orNotPermitted {α : Type} (what : Str) : Option α → Except Halt α
  | some a => .ok a
  | none => .error (.die (what ++ lit " failed: Operation not permitted"))

/-- `Container::setup_credentials`, up to its `setpgrp`, which changes none. -/
def setupCredentials (id : Uid) (c : Credentials) : Except Halt Credentials := do
  let c ← orNotPermitted (lit "Setting process gid to " ++ IdGetter.signedDecimal id)
    (c.setresgid id)
  let c ← orNotPermitted (lit "Removing process from all groups") (c.setgroups [])
  orNotPermitted (lit "Setting process uid to " ++ IdGetter.signedDecimal id) (c.setresuid id)

/-- `setup_credentials` returns, and there is no way back to root. -/
def LosesRoot (id : Uid) : Prop :=
  ∀ groups, ∃ c, setupCredentials id (.root groups) = .ok c ∧
    c.ruid ≠ 0 ∧ c.euid ≠ 0 ∧ c.suid ≠ 0

/-- The calls succeed for every id, also where they change nothing. -/
theorem setupCredentials_root (id : Uid) (groups : List Uid) :
    setupCredentials id (.root groups) =
      .ok ⟨Credentials.keep id 0, Credentials.keep id 0, Credentials.keep id 0,
        Credentials.keep id 0, Credentials.keep id 0, Credentials.keep id 0, []⟩ := by
  let withGid : Credentials := { Credentials.root groups with
    rgid := Credentials.keep id 0, egid := Credentials.keep id 0, sgid := Credentials.keep id 0 }
  have hGid : (Credentials.root groups).setresgid id = some withGid := if_pos (.inl rfl)
  have hGroups : withGid.setgroups [] = some { withGid with groups := [] } := if_pos rfl
  have hUid : ({ withGid with groups := [] } : Credentials).setresuid id =
      some ⟨Credentials.keep id 0, Credentials.keep id 0, Credentials.keep id 0,
        Credentials.keep id 0, Credentials.keep id 0, Credentials.keep id 0, []⟩ :=
    if_pos (.inl rfl)
  simp only [setupCredentials, hGid, orNotPermitted, bind, Except.bind, hGroups, hUid]

theorem losesRoot_iff_id {id : Uid} : LosesRoot id ↔ id ≠ 0 ∧ id ≠ Credentials.unchanged := by
  have hKeep : Credentials.keep id 0 ≠ 0 ↔ id ≠ 0 ∧ id ≠ Credentials.unchanged := by
    rw [Credentials.keep]
    split
    · simp_all
    · simp_all
  rw [← hKeep]
  constructor
  · intro h
    obtain ⟨c, hSetup, hRuid, -, -⟩ := h []
    rw [setupCredentials_root] at hSetup
    obtain rfl := Except.ok.inj hSetup
    exact hRuid
  · intro h groups
    exact ⟨_, setupCredentials_root id groups, h, h, h⟩

/-- The ids from `start` on come by neither special value. -/
theorem ids_avoid_iff (start : Uid) :
    (∀ k < idCount, start + UInt32.ofNat k ≠ 0 ∧ start + UInt32.ofNat k ≠ Credentials.unchanged) ↔
      1 ≤ start.toNat ∧ start.toNat + idCount < 2 ^ 32 := by
  have hStart := start.toNat_lt
  have hValue : ∀ k < idCount, (start + UInt32.ofNat k).toNat = (start.toNat + k) % 2 ^ 32 := by
    intro k hk
    rw [UInt32.toNat_add, UInt32.toNat_ofNat', Nat.add_mod_mod]
  simp only [ne_eq, ← UInt32.toNat_inj]
  have hZero : (0 : Uid).toNat = 0 := rfl
  have hLast : Credentials.unchanged.toNat = 2 ^ 32 - 1 := rfl
  rw [hZero, hLast]
  constructor
  · intro h
    have hFirst := h 0 (by decide)
    rw [hValue 0 (by decide)] at hFirst
    refine ⟨by omega, ?_⟩
    by_contra hNear
    -- the pool reaches the last id
    have hk : 2 ^ 32 - 1 - start.toNat < idCount := by omega
    have hEnd := (h _ hk).2
    rw [hValue _ hk] at hEnd
    omega
  · rintro ⟨hPos, hFar⟩ k hk
    rw [hValue k hk]
    omega

/-- **No slave keeps root** if and only if `first_uid` is neither 0 nor so close to
2³² that one of the 256 ids wraps around to 0 or is the last one. -/
theorem losesRoot_iff (config : Config) :
    (∀ id, IdPool.Hands config id → id ≠ 0 ∧ id ≠ Credentials.unchanged ∧ LosesRoot id) ↔
      1 ≤ config.firstUid.toNat ∧ config.firstUid.toNat + idCount < 2 ^ 32 := by
  rw [← ids_avoid_iff]
  constructor
  · intro h k hk
    obtain ⟨hZero, hUnchanged, -⟩ := h _ (IdPool.hands_iff.mpr ⟨k, hk, rfl⟩)
    exact ⟨hZero, hUnchanged⟩
  · intro h id hHands
    obtain ⟨k, hk, rfl⟩ := IdPool.hands_iff.mp hHands
    exact ⟨(h k hk).1, (h k hk).2, losesRoot_iff_id.mpr (h k hk)⟩

/-- A configuration whose first id is root's. -/
def rootConfig : Json :=
  .object [
    (lit "num_boxes", .int ⟨1, by decide, by decide⟩),
    (lit "socket_path", .string (lit "/run/libsboxd.sock")),
    (lit "first_uid", .int ⟨0, by decide, by decide⟩),
    (lit "box_dir", .string (lit "/var/lib/libsboxd")),
    (lit "cgroup_root", .string (lit "/sys/fs/cgroup")),
    (lit "timer_interval_ms", .int ⟨10, by decide, by decide⟩)]

/-- The first container of that daemon runs its task as root. -/
theorem rootConfig_keeps_root :
    ¬ ∀ document config, Config.load document = .ok config →
      ∀ id, IdPool.Hands config id → id ≠ 0 ∧ id ≠ Credentials.unchanged ∧ LosesRoot id := by
  intro hClaim
  obtain ⟨config, hLoad, hFirst⟩ : ∃ config, Config.load rootConfig = .ok config ∧
    config.firstUid = 0 := ⟨_, rfl, rfl⟩
  have hHands : IdPool.Hands config 0 := IdPool.hands_iff.mpr ⟨0, by decide, by rw [hFirst]; rfl⟩
  exact (hClaim rootConfig config hLoad 0 hHands).1 rfl

end Libsbox
