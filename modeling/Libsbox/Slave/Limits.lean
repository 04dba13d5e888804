import Libsbox.Lib.Decimal
import Libsbox.Marshalling.Capacity

/-!
# libsbox — the limits that the kernel is told

The limits of a task on their way from the request to the kernel: `set_task` copies them
into the shared block, `Container::serve` writes the one on memory into the cgroup, and
`Container::setup_rlimits` sets the others in the slave.

`setrlimit` takes `RLIMIT_FSIZE` in bytes, and the memory cgroup takes a number with the
suffix `K` as so many times 1024 bytes.

## Results

* `setupRlimits_ok` — what the slave's limits are behind `setup_rlimits`;
* `limitsKept_iff` — for which tasks every limit is the one asked for.
-/

namespace Libsbox

open CMemory

-- ---------------------------------------------------------------------------
-- setrlimit
-- ---------------------------------------------------------------------------

inductive Resource where
  | fsize
  | core
  | stack
  | nofile
  | nproc
  | memlock
  | msgqueue
  deriving DecidableEq

/-- `#res`, as in the message of `set_rlimit_ext`. -/
def Resource.name : Resource → Str
  | .fsize => lit "RLIMIT_FSIZE"
  | .core => lit "RLIMIT_CORE"
  | .stack => lit "RLIMIT_STACK"
  | .nofile => lit "RLIMIT_NOFILE"
  | .nproc => lit "RLIMIT_NPROC"
  | .memlock => lit "RLIMIT_MEMLOCK"
  | .msgqueue => lit "RLIMIT_MSGQUEUE"

/-- `rlim_t`. -/
abbrev Rlim := UInt64

/-- `RLIM_INFINITY`. -/
def rlimInfinity : Rlim := 0xffffffffffffffff

/-- `struct rlimit`. -/
structure Rlimit where
  cur : Rlim
  max : Rlim
  deriving DecidableEq

abbrev Rlimits := Resource → Rlimit

/-- `Container::set_rlimit_ext`; `accepts` says what the kernel lets the slave set. -/
def setRlimitExt (accepts : Resource → Rlimit → Bool) (limits : Rlimits) (call : Resource × Rlim) :
    Except Halt Rlimits :=
  let rlim : Rlimit := ⟨call.2, call.2⟩
  if accepts call.1 rlim then .ok (Function.update limits call.1 rlim)
  else .error (.die (lit "Cannot set " ++ call.1.name ++ lit ": Operation not permitted"))

/-- The calls of `set_rlimit` in `Container::setup_rlimits`. `static_cast<unsigned>` takes
the low 32 bits. -/
def rlimitCalls (d : TaskData) : List (Resource × Rlim) :=
  (if d.fsizeLimitKb ≠ -1 then [(.fsize, d.fsizeLimitKb.toUInt64.toUInt32.toUInt64)] else []) ++
    [(.core, 0), (.stack, rlimInfinity)] ++
    (if d.maxFiles ≠ -1 then [(.nofile, d.maxFiles.toUInt32.toUInt64)] else []) ++
    [(.nproc, if d.maxThreads = -1 then rlimInfinity else d.maxThreads.toUInt32.toUInt64),
      (.memlock, 0), (.msgqueue, 0)]

/-- `Container::setup_rlimits`. -/
def setupRlimits (accepts : Resource → Rlimit → Bool) (d : TaskData) (limits : Rlimits) :
    Except Halt Rlimits :=
  (rlimitCalls d).foldlM (setRlimitExt accepts) limits

-- ---------------------------------------------------------------------------
-- The memory cgroup
-- ---------------------------------------------------------------------------

/-- What `Container::serve` writes into the file, if it does. -/
def memoryLimitInBytes (d : TaskData) : Option Str :=
  if d.memoryLimitKb ≠ -1 then some (lit (toString d.memoryLimitKb.toInt) ++ lit "K") else none

/-- How the memory cgroup reads that file, for a number that is as it is or counts `K`. -/
def memparse (s : Str) : Option Nat :=
  let digits := s.takeWhile isDigit
  let suffix := s.dropWhile isDigit
  if digits.isEmpty then none
  else if suffix = [] then some (digitsValue digits)
  else if suffix = lit "K" then some (digitsValue digits * 1024)
  else none

-- ---------------------------------------------------------------------------
-- Limits that are kept
-- ---------------------------------------------------------------------------

/-- What a value handed to `setrlimit` limits the resource to. -/
def imposed (limit : Option Rlim) : Option Nat :=
  match limit with
  | some limit => if limit = rlimInfinity then none else some limit.toNat
  | none => none

/-- The limit that a field asks for is the one imposed: none for -1, otherwise so many
units, where that fits into 64 bits. -/
def Keeps (limit : Int) (unit : Nat) (given : Option Nat) : Prop :=
  (limit = -1 → given = none) ∧
    (0 ≤ limit → limit.toNat * unit < 2 ^ 64 → given = some (limit.toNat * unit))

/-- The kernel is told the limits of the task. -/
structure LimitsKept (task : Task) (d : TaskData) : Prop where
  fsize : Keeps task.fsizeLimitKb.toInt 1024 (imposed ((rlimitCalls d).lookup .fsize))
  memory : Keeps task.memoryLimitKb.toInt 1024 ((memoryLimitInBytes d).bind memparse)
  files : Keeps task.maxFiles.toInt 1 (imposed ((rlimitCalls d).lookup .nofile))
  threads : Keeps task.maxThreads.toInt 1 (imposed ((rlimitCalls d).lookup .nproc))

/-- A field of a task that is -1 or not negative. -/
def IsLimit (limit : Int) : Prop := limit = -1 ∨ 0 ≤ limit

variable {task : Task} {d d' : TaskData} {pipes pipes' : Pipes}

/-- `set_task` copies the limits. -/
theorem setTask_limits (h : setTask task d pipes = .ok (d', pipes')) :
    d'.fsizeLimitKb = task.fsizeLimitKb ∧ d'.memoryLimitKb = task.memoryLimitKb ∧
      d'.maxFiles = task.maxFiles ∧ d'.maxThreads = task.maxThreads := by
  obtain ⟨_, _, hCalls⟩ := setTask_calls h
  rw [hCalls.fields]
  exact ⟨rfl, rfl, rfl, rfl⟩

-- ---------------------------------------------------------------------------
-- Each of the calls
-- ---------------------------------------------------------------------------

theorem lookup_fsize (d : TaskData) : (rlimitCalls d).lookup .fsize =
    if d.fsizeLimitKb ≠ -1 then some d.fsizeLimitKb.toUInt64.toUInt32.toUInt64 else none := by
  unfold rlimitCalls
  split
  · rfl
  · split <;> rfl

theorem lookup_nofile (d : TaskData) : (rlimitCalls d).lookup .nofile =
    if d.maxFiles ≠ -1 then some d.maxFiles.toUInt32.toUInt64 else none := by
  unfold rlimitCalls
  split <;> split <;> rfl

theorem lookup_nproc (d : TaskData) : (rlimitCalls d).lookup .nproc =
    some (if d.maxThreads = -1 then rlimInfinity else d.maxThreads.toUInt32.toUInt64) := by
  unfold rlimitCalls
  split <;> split <;> rfl

/-- The calls are for different resources. -/
theorem rlimitCalls_nodup (d : TaskData) : ((rlimitCalls d).map Prod.fst).Nodup := by
  unfold rlimitCalls
  split <;> split <;> simp

theorem setRlimits_ok {accepts : Resource → Rlimit → Bool} {calls : List (Resource × Rlim)}
    {limits limits' : Rlimits} (hNodup : (calls.map Prod.fst).Nodup)
    (h : calls.foldlM (setRlimitExt accepts) limits = .ok limits') (res : Resource) :
    limits' res = ((calls.lookup res).map fun limit => ⟨limit, limit⟩).getD (limits res) := by
  induction calls generalizing limits with
  | nil =>
    cases h
    rfl
  | cons call calls ih =>
    obtain ⟨hNew, hRest⟩ := List.nodup_cons.mp hNodup
    rw [List.foldlM_cons] at h
    obtain ⟨m, hCall, hLater⟩ := bind_eq_ok h
    unfold setRlimitExt at hCall
    dsimp only at hCall
    split at hCall
    · obtain rfl := Except.ok.inj hCall
      rw [ih hRest hLater]
      rcases eq_or_ne res call.1 with rfl | hNe
      · have hGone : calls.lookup call.1 = none := by
          rw [List.lookup_eq_none_iff]
          intro other hMem
          have hOther : other.1 ≠ call.1 := fun hEq =>
            hNew (hEq ▸ List.mem_map_of_mem hMem)
          simpa using hOther.symm
        rw [hGone, List.lookup_cons_self, Function.update_self]
        rfl
      · rw [List.lookup_cons, beq_false_of_ne hNe, Function.update_of_ne hNe]
    · cases hCall

/-- **The limits of the slave** behind `setup_rlimits`: those of the calls, soft and hard,
and the ones it had where there is no call. -/
theorem setupRlimits_ok {accepts : Resource → Rlimit → Bool} {limits limits' : Rlimits}
    (h : setupRlimits accepts d limits = .ok limits') (res : Resource) :
    limits' res =
      (((rlimitCalls d).lookup res).map fun limit => ⟨limit, limit⟩).getD (limits res) :=
  setRlimits_ok (rlimitCalls_nodup d) h res

-- ---------------------------------------------------------------------------
-- Each of the limits
-- ---------------------------------------------------------------------------

/-- A value that fills the low half of an `rlim_t` is a limit. -/
theorem imposed_of_lt {limit : Rlim} (h : limit.toNat < 2 ^ 32) :
    imposed (some limit) = some limit.toNat := by
  refine if_neg fun hInfinity => ?_
  rw [hInfinity] at h
  exact absurd h (by decide)

theorem toNat_unsigned32 {x : Int32} (h : 0 ≤ x.toInt) :
    x.toUInt32.toUInt64.toNat = x.toInt.toNat := by
  rw [UInt32.toNat_toUInt64, Int32.toNat_toUInt32_of_le (Int32.le_iff_toInt_le.mpr h),
    Int32.toNat_toInt]

theorem toNat_unsigned64 {x : Int64} (h : 0 ≤ x.toInt) :
    x.toUInt64.toUInt32.toUInt64.toNat = x.toInt.toNat % 2 ^ 32 := by
  rw [UInt32.toNat_toUInt64, UInt64.toNat_toUInt32,
    Int64.toNat_toUInt64_of_le (Int64.le_iff_toInt_le.mpr h), Int64.toNat_toInt]

theorem ne_minus_one32 {x : Int32} (h : 0 ≤ x.toInt) : x ≠ -1 := by
  rintro rfl
  exact absurd h (by decide)

theorem ne_minus_one64 {x : Int64} (h : 0 ≤ x.toInt) : x ≠ -1 := by
  rintro rfl
  exact absurd h (by decide)

/-- A 32-bit limit, handed over as it is. -/
theorem keeps_unsigned32 {x : Int32} {given : Option Nat} (hNone : x = -1 → given = none)
    (hSome : x ≠ -1 → given = imposed (some x.toUInt32.toUInt64)) : Keeps x.toInt 1 given := by
  refine ⟨fun hMinus => hNone (Int32.toInt_inj.mp hMinus), fun hNonneg _ => ?_⟩
  have hValue := toNat_unsigned32 hNonneg
  have hLt : x.toUInt32.toUInt64.toNat < 2 ^ 32 := by
    rw [UInt32.toNat_toUInt64]
    exact UInt32.toNat_lt _
  rw [hSome (ne_minus_one32 hNonneg), imposed_of_lt hLt, hValue, Nat.mul_one]

theorem keeps_nofile (d : TaskData) :
    Keeps d.maxFiles.toInt 1 (imposed ((rlimitCalls d).lookup .nofile)) := by
  refine keeps_unsigned32 (fun hMinus => ?_) fun hLimit => ?_
  · rw [lookup_nofile, if_neg (not_not.mpr hMinus)]
    rfl
  · rw [lookup_nofile, if_pos hLimit]

theorem keeps_nproc (d : TaskData) :
    Keeps d.maxThreads.toInt 1 (imposed ((rlimitCalls d).lookup .nproc)) := by
  refine keeps_unsigned32 (fun hMinus => ?_) fun hLimit => ?_
  · rw [lookup_nproc, if_pos hMinus]
    rfl
  · rw [lookup_nproc, if_neg hLimit]

/-- The cgroup reads back what `std::to_string` has written, times 1024. -/
theorem memparse_kilobytes (n : Nat) : memparse (decimal n ++ lit "K") = some (n * 1024) := by
  have hK : ∀ c ∈ (lit "K").head?, isDigit c = false := by
    intro c hc
    have hLetter : some 75 = some c := hc
    obtain rfl := Option.some.inj hLetter
    rfl
  obtain ⟨hDigits, hSuffix⟩ := takeWhile_decimal n hK
  have hSome : ¬ (decimal n).isEmpty = true := by
    rw [List.isEmpty_iff]
    exact decimal_ne_nil n
  rw [memparse, hDigits, hSuffix, if_neg hSome, if_neg (by decide), if_pos rfl, digitsValue_decimal]

theorem keeps_memory (d : TaskData) :
    Keeps d.memoryLimitKb.toInt 1024 ((memoryLimitInBytes d).bind memparse) := by
  refine ⟨fun hMinus => ?_, fun hNonneg _ => ?_⟩
  · have hMinus : d.memoryLimitKb = -1 := Int64.toInt_inj.mp hMinus
    rw [memoryLimitInBytes, if_neg (not_not.mpr hMinus)]
    rfl
  · obtain ⟨n, hn⟩ := Int.eq_ofNat_of_zero_le hNonneg
    rw [memoryLimitInBytes, if_pos (ne_minus_one64 hNonneg), hn]
    exact memparse_kilobytes n

/-- The low half of a number is 1024 times the number only if that is 0. -/
theorem mod_eq_mul_iff (n : Nat) :
    (n * 1024 < 2 ^ 64 → n % 2 ^ 32 = n * 1024) ↔ n = 0 ∨ 2 ^ 64 ≤ n * 1024 := by
  constructor
  · intro h
    by_contra hNot
    obtain ⟨hPos, hFits⟩ := not_or.mp hNot
    have hLe := Nat.mod_le n (2 ^ 32)
    rw [h (Nat.not_le.mp hFits)] at hLe
    omega
  · rintro (rfl | hHuge) hFits
    · rfl
    · exact absurd hFits (Nat.not_lt.mpr hHuge)

theorem pow_le_cast_mul (n : Nat) : (2 ^ 64 : Int) ≤ (n : Int) * 1024 ↔ 2 ^ 64 ≤ n * 1024 := by
  omega

/-- **The limit on files** is kept where the missing factor of 1024 does not matter. -/
theorem keeps_fsize_iff {d : TaskData} (hLimit : IsLimit d.fsizeLimitKb.toInt) :
    Keeps d.fsizeLimitKb.toInt 1024 (imposed ((rlimitCalls d).lookup .fsize)) ↔
      d.fsizeLimitKb = -1 ∨ d.fsizeLimitKb = 0 ∨ 2 ^ 64 ≤ d.fsizeLimitKb.toInt * 1024 := by
  rcases hLimit with hMinus | hNonneg
  · have hMinus' : d.fsizeLimitKb = -1 := Int64.toInt_inj.mp hMinus
    refine iff_of_true ⟨fun _ => ?_, fun hNonneg => ?_⟩ (.inl hMinus')
    · rw [lookup_fsize, if_neg (not_not.mpr hMinus')]
      rfl
    · rw [hMinus] at hNonneg
      exact absurd hNonneg (by decide)
  · have hSome := ne_minus_one64 hNonneg
    have hValue := toNat_unsigned64 hNonneg
    have hLt : d.fsizeLimitKb.toUInt64.toUInt32.toUInt64.toNat < 2 ^ 32 := by
      rw [hValue]
      exact Nat.mod_lt _ (by decide)
    have hZero : d.fsizeLimitKb = 0 ↔ d.fsizeLimitKb.toInt = 0 := Int64.toInt_inj.symm
    have hMinus : ¬ d.fsizeLimitKb.toInt = -1 := fun hEq => hSome (Int64.toInt_inj.mp hEq)
    rw [lookup_fsize, if_pos hSome, imposed_of_lt hLt, hValue, Keeps, hZero]
    obtain ⟨n, hn⟩ := Int.eq_ofNat_of_zero_le hNonneg
    rw [hn] at hMinus ⊢
    rw [pow_le_cast_mul]
    constructor
    · rintro ⟨-, hKeeps⟩
      have hEq := (mod_eq_mul_iff n).mp fun hFits =>
        Option.some.inj (hKeeps (Int.natCast_nonneg n) hFits)
      exact .inr (hEq.imp_left (congrArg Int.ofNat))
    · intro hKept
      refine ⟨fun hEq => absurd hEq hMinus, fun _ hFits => congrArg some ?_⟩
      exact (mod_eq_mul_iff n).mpr ((hKept.resolve_left hSome).imp_left Int.ofNat.inj) hFits

/-- **Every limit is the one asked for** if and only if the one on files is -1, 0 or too
large for 64 bits. -/
theorem limitsKept_iff (hSet : setTask task d pipes = .ok (d', pipes'))
    (hFsize : IsLimit task.fsizeLimitKb.toInt) :
    LimitsKept task d' ↔
      task.fsizeLimitKb = -1 ∨ task.fsizeLimitKb = 0 ∨ 2 ^ 64 ≤ task.fsizeLimitKb.toInt * 1024 := by
  obtain ⟨hSame, hMemory, hFiles, hThreads⟩ := setTask_limits hSet
  rw [← hSame] at hFsize ⊢
  rw [← keeps_fsize_iff hFsize]
  constructor
  · intro hKept
    have hFile := hKept.fsize
    rwa [← hSame] at hFile
  · intro hKept
    refine ⟨hSame ▸ hKept, ?_, ?_, ?_⟩
    · rw [← hMemory]
      exact keeps_memory d'
    · rw [← hFiles]
      exact keeps_nofile d'
    · rw [← hThreads]
      exact keeps_nproc d'

/-- A task that may write 64 kB into a file. -/
def fsizeTask : Task := { fsizeLimitKb := 64 }

theorem fsizeTask_set : ∃ d' pipes', setTask fsizeTask TaskData.new ⟨[], []⟩ = .ok (d', pipes') :=
  setTask_returns (setTask_accepts _ _ rfl rfl rfl rfl (by decide) (by decide))

theorem limitsKept_iff_fsize :
    ∃ d' pipes', setTask fsizeTask TaskData.new ⟨[], []⟩ = .ok (d', pipes') ∧
      ¬ LimitsKept fsizeTask d' := by
  obtain ⟨d', pipes', hSet⟩ := fsizeTask_set
  have hLimit : IsLimit fsizeTask.fsizeLimitKb.toInt := .inr (by decide)
  exact ⟨d', pipes', hSet, fun hKept => absurd ((limitsKept_iff hSet hLimit).mp hKept) (by decide)⟩

/-- It may write 64 bytes. -/
theorem fsize_limit_loses_unit :
    ¬ ∀ (task : Task) (d d' : TaskData) (pipes pipes' : Pipes),
      setTask task d pipes = .ok (d', pipes') →
      IsLimit task.fsizeLimitKb.toInt → IsLimit task.memoryLimitKb.toInt →
      IsLimit task.maxFiles.toInt → IsLimit task.maxThreads.toInt → LimitsKept task d' := by
  intro hClaim
  obtain ⟨d', pipes', hSet⟩ := fsizeTask_set
  have hKept := hClaim _ _ _ _ _ hSet (.inr (by decide)) (.inl rfl) (.inr (by decide))
    (.inr (by decide))
  have hGiven : imposed ((rlimitCalls d').lookup .fsize) = some (64 * 1024) :=
    hKept.fsize.2 (by decide) (by decide)
  rw [lookup_fsize, (setTask_limits hSet).1] at hGiven
  revert hGiven
  decide

end Libsbox
