import Libsbox.Ids.Credentials
import Libsbox.Lib.Pool

/-!
# libsbox — the id pool shared by many processes

Any number of processes call `get` and `put` of one `SharedIdGetter`. `mutex_` makes
each call atomic, so the calls happen one after another, in any order. A process puts
back only what it holds. One whose call dies keeps what it holds and leaves the pool
as it is.

## Results

* `SharedPool.step_apart`, `SharedPool.step_mem` — a call moves one id or none;
* `SharedPool.ids_exact` — the ids in the stack and the ids held are the ones the pool
  was made with, each once, so `get` dies only where all are held and `put` never.
-/

namespace Libsbox

open CMemory Runs

/-- The getter, and what each process has got out of it and not put back. -/
structure SharedPool (ι : Type) (count : Nat) where
  getter : IdGetter count
  held : ι → List Uid

inductive SharedCall (ι : Type) where
  | get (i : ι)
  | put (i : ι) (id : Uid)

namespace SharedPool

variable {ι : Type} {count : Nat}

/-- `SharedIdGetter(start, count)`, before the first call. -/
def initial (start count : Uid) : SharedPool ι count.toNat where
  getter := .new start count.toNat
  held _ := []

/-- One call. -/
def step [DecidableEq ι] (p : SharedPool ι count) : SharedCall ι → Option (SharedPool ι count)
  | .get i =>
    match p.getter.get with
    | .ok (id, getter) => some ⟨getter, Function.update p.held i (id :: p.held i)⟩
    | .error _ => some p
  | .put i id =>
    if id ∈ p.held i then
      match p.getter.put id with
      | .ok getter => some ⟨getter, Function.update p.held i ((p.held i).erase id)⟩
      | .error _ => some p
    else none

/-- `ids_stack_[0 .. head)`. -/
def inStack (p : SharedPool ι count) : List Uid := p.getter.idsStack.toList.take p.getter.stackHead

variable {p p' : SharedPool ι count} {id : Uid}

theorem toList_getter (p : SharedPool ι count) : p.getter.toList = p.inStack.reverse := rfl

theorem mem_inStack : id ∈ p.inStack ↔ id ∈ p.getter.toList := by
  rw [toList_getter, List.mem_reverse]

-- ---------------------------------------------------------------------------
-- One call
-- ---------------------------------------------------------------------------

section Step

variable [DecidableEq ι]

/-- Process `i` takes `id` from the top of the stack of `p`, which leaves `p'`. -/
structure Takes (i : ι) (id : Uid) (p p' : SharedPool ι count) : Prop where
  stack : p.getter.toList = id :: p'.getter.toList
  others : ∀ j, j ≠ i → p'.held j = p.held j
  perm : (p'.held i).Perm (id :: p.held i)

/-- `get` takes an id, `put` is the same backwards, and a call that dies does nothing. -/
theorem step_cases {call : SharedCall ι} (hStep : p.step call = some p') :
    p' = p ∨ ∃ i id, Takes i id p p' ∨ Takes i id p' p := by
  match call with
  | .get i =>
    simp only [step] at hStep
    rcases p.getter.get_spec with ⟨-, hGet⟩ | ⟨id, getter, hGet, hList⟩
    · rw [hGet] at hStep
      exact .inl (Option.some.inj hStep).symm
    · rw [hGet] at hStep
      obtain rfl := Option.some.inj hStep
      refine .inr ⟨i, id, .inl ⟨hList, fun j hNe => Function.update_of_ne hNe _ _, ?_⟩⟩
      show (Function.update p.held i (id :: p.held i) i).Perm _
      rw [Function.update_self]
  | .put i id =>
    simp only [step] at hStep
    split at hStep
    · rename_i hHeld
      rcases p.getter.put_spec id with ⟨-, e, hPut⟩ | ⟨getter, hPut, hList⟩
      · rw [hPut] at hStep
        exact .inl (Option.some.inj hStep).symm
      · rw [hPut] at hStep
        obtain rfl := Option.some.inj hStep
        refine .inr ⟨i, id, .inr ⟨hList, fun j hNe => (Function.update_of_ne hNe _ _).symm, ?_⟩⟩
        show (p.held i).Perm (id :: Function.update p.held i ((p.held i).erase id) i)
        rw [Function.update_self]
        exact List.perm_cons_erase hHeld
    · cases hStep

/-- No call duplicates an id. -/
theorem step_apart {call : SharedCall ι} (hApart : Pool.Apart p.getter.toList p.held)
    (hStep : p.step call = some p') : Pool.Apart p'.getter.toList p'.held := by
  rcases step_cases hStep with rfl | ⟨i, id, hTakes | hTakes⟩
  · exact hApart
  · rw [hTakes.stack] at hApart
    exact hApart.take hTakes.others hTakes.perm
  · rw [hTakes.stack]
    exact hApart.give (fun j hNe => (hTakes.others j hNe).symm) hTakes.perm

/-- No call loses an id or brings in another one. -/
theorem step_has {call : SharedCall ι} (hStep : p.step call = some p') (id : Uid) :
    Pool.Has p'.getter.toList p'.held id ↔ Pool.Has p.getter.toList p.held id := by
  rcases step_cases hStep with rfl | ⟨i, moved, hTakes | hTakes⟩
  · rfl
  · rw [hTakes.stack]
    exact Pool.has_iff_of_take hTakes.others hTakes.perm
  · rw [hTakes.stack]
    exact (Pool.has_iff_of_take hTakes.others hTakes.perm).symm

end Step

-- ---------------------------------------------------------------------------
-- All histories
-- ---------------------------------------------------------------------------

/-- The ids from `start` on, where none of them wraps around. -/
theorem mem_new_iff {start count : Uid} (hFits : start.toNat + count.toNat ≤ 2 ^ 32) :
    id ∈ (SharedIdGetter.new start count.toNat).stack ↔
      start.toNat ≤ id.toNat ∧ id.toNat < start.toNat + count.toNat := by
  have hValue : ∀ k < count.toNat, (start + UInt32.ofNat k).toNat = start.toNat + k := by
    intro k hk
    rw [UInt32.toNat_add, UInt32.toNat_ofNat', Nat.add_mod_mod]
    omega
  rw [SharedIdGetter.new, List.mem_map]
  constructor
  · rintro ⟨k, hk, rfl⟩
    rw [hValue k (List.mem_range.mp hk)]
    have := List.mem_range.mp hk
    omega
  · rintro ⟨hLow, hHigh⟩
    refine ⟨id.toNat - start.toNat, List.mem_range.mpr (by omega), ?_⟩
    rw [← UInt32.toNat_inj, hValue _ (by omega)]
    omega

theorem nodup_new {start count : Uid} (hFits : start.toNat + count.toNat ≤ 2 ^ 32) :
    (SharedIdGetter.new start count.toNat).stack.Nodup := by
  refine List.Nodup.map_on (fun j hj k hk hEq => ?_) List.nodup_range
  have hj := List.mem_range.mp hj
  have hk := List.mem_range.mp hk
  have hNat := congrArg UInt32.toNat hEq
  rw [UInt32.toNat_add, UInt32.toNat_add, UInt32.toNat_ofNat', UInt32.toNat_ofNat'] at hNat
  omega

variable [DecidableEq ι]

/-- The ids in the stack and the ids held, after any history. -/
theorem reachable_ids {start count : Uid} {p : SharedPool ι count.toNat}
    (hFits : start.toNat + count.toNat ≤ 2 ^ 32)
    (hReach : Reachable step (initial start count) p) :
    Pool.Apart p.getter.toList p.held ∧
      ∀ id, Pool.Has p.getter.toList p.held id ↔
        id ∈ (SharedIdGetter.new start count.toNat).stack := by
  have hNew : (initial start count : SharedPool ι count.toNat).getter.toList =
      (SharedIdGetter.new start count.toNat).stack := IdGetter.toList_new _ _
  refine invariant_of_reachable
    (I := fun p => Pool.Apart p.getter.toList p.held ∧
      ∀ id, Pool.Has p.getter.toList p.held id ↔
        id ∈ (SharedIdGetter.new start count.toNat).stack)
    (fun p call p' hInv hStep => ?_) ⟨?_, fun id => ?_⟩ hReach
  · exact ⟨step_apart hInv.1 hStep, fun id => (step_has hStep id).trans (hInv.2 id)⟩
  · rw [hNew]
    exact Pool.apart_of_nodup (nodup_new hFits)
  · rw [hNew]
    exact ⟨fun h => h.elim (fun hFree => hFree) fun ⟨_, hHeld⟩ => absurd hHeld List.not_mem_nil, .inl⟩

/-- A process that holds an id leaves room for it in the array. -/
theorem room_of_held {start count : Uid} {p : SharedPool ι count.toNat} {i : ι}
    (hFits : start.toNat + count.toNat ≤ 2 ^ 32)
    (hReach : Reachable step (initial start count) p) (hHeld : id ∈ p.held i) :
    p.getter.toList.length < count.toNat := by
  obtain ⟨hApart, hHas⟩ := reachable_ids hFits hReach
  have hNodup : (id :: p.getter.toList).Nodup :=
    List.nodup_cons.mpr ⟨fun hFree => hApart.unheld i hFree hHeld, hApart.free_nodup⟩
  have hSub : id :: p.getter.toList ⊆ (SharedIdGetter.new start count.toNat).stack := by
    intro x hx
    rcases List.mem_cons.mp hx with rfl | hFree
    · exact (hHas x).mp (.inr ⟨i, hHeld⟩)
    · exact (hHas x).mp (.inl hFree)
  have hLength := (List.subperm_of_subset hNodup hSub).length_le
  rw [List.length_cons, SharedIdGetter.new, List.length_map, List.length_range] at hLength
  omega

/-- **The pool at every moment.** The ids in the stack and the ids held are
`start .. start + count - 1`, each once; a `get` that dies finds all of them held, and
a `put` finds room in the array. -/
theorem ids_exact {start count : Uid} (hFits : start.toNat + count.toNat ≤ 2 ^ 32)
    {p : SharedPool ι count.toNat} (hReach : Reachable step (initial start count) p) :
    Pool.Apart p.inStack p.held ∧
      (∀ id, Pool.Has p.inStack p.held id ↔
        start.toNat ≤ id.toNat ∧ id.toNat < start.toNat + count.toNat) ∧
      ((∃ e, p.getter.get = .error e) →
        ∀ id : Uid, start.toNat ≤ id.toNat → id.toNat < start.toNat + count.toNat →
          ∃ i, id ∈ p.held i) ∧
      ∀ i, ∀ id ∈ p.held i, p.getter.stackHead < count.toNat ∧
        ∃ getter, p.getter.put id = .ok getter := by
  obtain ⟨hApart, hHas⟩ := reachable_ids hFits hReach
  have hApart' : Pool.Apart p.inStack p.held :=
    { hApart with
      free_nodup := List.nodup_reverse.mp (toList_getter p ▸ hApart.free_nodup)
      unheld := fun i x hFree => hApart.unheld i (mem_inStack.mp hFree) }
  have hHas' : ∀ id, Pool.Has p.inStack p.held id ↔
      start.toNat ≤ id.toNat ∧ id.toNat < start.toNat + count.toNat := by
    intro id
    rw [Pool.Has, mem_inStack, ← mem_new_iff hFits]
    exact hHas id
  refine ⟨hApart', hHas', ?_, ?_⟩
  · rintro ⟨e, hGet⟩ id hLow hHigh
    rcases p.getter.get_spec with ⟨hEmpty, -⟩ | ⟨first, getter, hGet', -⟩
    · rcases (hHas' id).mpr ⟨hLow, hHigh⟩ with hFree | hHeld
      · rw [mem_inStack, hEmpty] at hFree
        exact absurd hFree List.not_mem_nil
      · exact hHeld
    · rw [hGet'] at hGet
      cases hGet
  · intro i id hHeld
    have hRoom := room_of_held hFits hReach hHeld
    have hHead : p.getter.toList.length = p.getter.stackHead := by
      have hLe := p.getter.head_le
      rw [toList_getter, List.length_reverse, inStack, List.length_take, Vector.length_toList]
      omega
    refine ⟨by omega, ?_⟩
    rcases p.getter.put_spec id with ⟨hFull, -⟩ | ⟨getter, hPut, -⟩
    · omega
    · exact ⟨getter, hPut⟩

/-- Two processes and three ids: one is put back and got by the other process, then the
pool is empty and a call of `get` dies. -/
def emptyingCalls : List (SharedCall Bool) :=
  [.get false, .get true, .put false 5, .get true, .get false, .get false]

theorem ids_exact_emptying :
    ∃ p : SharedPool Bool (3 : Uid).toNat,
      run step (initial 5 3) emptyingCalls = some p ∧ p.held false = [7] ∧ p.held true = [5, 6] ∧
      (∀ id : Uid, 5 ≤ id.toNat → id.toNat < 8 → ∃ i, id ∈ p.held i) ∧
      ∃ getter, p.getter.put 6 = .ok getter := by
  obtain ⟨p, hRun, hFalse, hTrue, hDies⟩ : ∃ p : SharedPool Bool (3 : Uid).toNat,
      run step (initial 5 3) emptyingCalls = some p ∧ p.held false = [7] ∧ p.held true = [5, 6] ∧
        ∃ e, p.getter.get = .error e := ⟨_, rfl, rfl, rfl, _, rfl⟩
  have hReach : Reachable step (initial 5 3) p := ⟨_, hRun⟩
  obtain ⟨-, -, hAll, hPut⟩ := ids_exact (by decide) hReach
  exact ⟨p, hRun, hFalse, hTrue, hAll hDies, (hPut true 6 (by rw [hTrue]; decide)).2⟩

end SharedPool

end Libsbox
