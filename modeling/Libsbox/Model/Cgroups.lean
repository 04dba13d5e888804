import Libsbox.Ids.Farm
import Libsbox.Lib.Scan
import Libsbox.Slave.Descriptors

/-!
# libsbox — cgroups

The cgroups of the containers (cgroup_controller.cpp), one for each controller and id,
beside the workers that make, fill and remove them (container.cpp). What the processes
of a group do is charged to it by the kernel, and the container reads the sums out of
its files at the end of a run.

The kernel's part is what it documents of its files: they begin at 0 in a new group,
count what the processes in it are charged, and end with a newline.
-/

namespace Libsbox

open CMemory

-- ---------------------------------------------------------------------------
-- Files
-- ---------------------------------------------------------------------------

/-- What `read` calls hand out for the content of a file. -/
structure Chunks where
  chunks : Str → List Str
  whole : ∀ content, (chunks content).flatten = content

/-- `read_file`: `res += read_buf` takes a chunk up to its first NUL. -/
def readFile (reads : Chunks) (content : Str) : Str := ((reads.chunks content).map cstr).flatten

/-- The files of a directory, by name. -/
abbrev Files := Str → Option Str

/-- `CgroupController::read` of a number. -/
def readNumber (reads : Chunks) (files : Files) (filename : Str) : Option Int64 :=
  (files filename).bind fun content => stoll (readFile reads content)

-- ---------------------------------------------------------------------------
-- What a container reads
-- ---------------------------------------------------------------------------

/-- `Container::get_time_usage_ms`. -/
def getTimeUsageMs (reads : Chunks) (cpuacct : Files) : Option Int64 :=
  (readNumber reads cpuacct (lit "cpuacct.usage")).map fun n => n / 1000000

/-- `Container::get_time_usage_sys_ms`. -/
def getTimeUsageSysMs (reads : Chunks) (cpuacct : Files) : Option Int64 :=
  (readNumber reads cpuacct (lit "cpuacct.usage_sys")).map fun n => n / 1000000

/-- `Container::get_time_usage_user_ms`. -/
def getTimeUsageUserMs (reads : Chunks) (cpuacct : Files) : Option Int64 :=
  (readNumber reads cpuacct (lit "cpuacct.usage_user")).map fun n => n / 1000000

/-- `Container::get_memory_usage_kb`. -/
def getMemoryUsageKb (reads : Chunks) (memory : Files) : Option Int64 := do
  let maxUsage ← readNumber reads memory (lit "memory.max_usage_in_bytes")
  let curUsage ← readNumber reads memory (lit "memory.usage_in_bytes")
  return (if maxUsage < curUsage then curUsage else maxUsage) / 1024

/-- The loop of `Container::is_oom_killed`; it dies where it finds no such field. -/
def oomKillField : List Str → Option Bool
  | name :: val :: rest =>
    if name = lit "oom_kill" then some (val ≠ lit "0") else oomKillField rest
  | _ => none

/-- `Container::is_oom_killed`. -/
def isOomKilled (reads : Chunks) (memory : Files) : Option Bool :=
  (memory (lit "memory.oom_control")).bind fun content =>
    oomKillField (words (readFile reads content))

/-- `Container::is_memory_limit_hit`. -/
def isMemoryLimitHit (reads : Chunks) (memory : Files) : Option Bool :=
  (readNumber reads memory (lit "memory.failcnt")).map fun n => n ≠ 0

/-- What `Container::wait_for_slave` reads behind its loop. Without a result it dies. -/
def readUsage (reads : Chunks) (cpuacct memory : Files) (wallMs : Int64) : Option Usage := do
  let timeUsageMs ← getTimeUsageMs reads cpuacct
  let timeUsageSysMs ← getTimeUsageSysMs reads cpuacct
  let timeUsageUserMs ← getTimeUsageUserMs reads cpuacct
  let memoryUsageKb ← getMemoryUsageKb reads memory
  let oomKilled ← isOomKilled reads memory
  let memoryLimitHit ← isMemoryLimitHit reads memory
  return {
    timeUsageMs, timeUsageSysMs, timeUsageUserMs, wallTimeUsageMs := wallMs, memoryUsageKb,
    oomKilled, memoryLimitHit }

-- ---------------------------------------------------------------------------
-- What the kernel counts
-- ---------------------------------------------------------------------------

/-- What the processes of a group are charged, in nanoseconds and bytes. -/
inductive Charge where
  | cpu (user sys : Nat)
  | allocate (bytes : Nat)
  | free (bytes : Nat)
  | limitHit
  | oomKill
  deriving DecidableEq

/-- The controller that counts it. -/
def Charge.controller : Charge → Controller
  | .cpu _ _ => .cpuacct
  | .allocate _ | .free _ | .limitHit | .oomKill => .memory

structure Counters where
  user : Nat := 0
  sys : Nat := 0
  usage : Nat := 0
  maxUsage : Nat := 0
  failcnt : Nat := 0
  oomKill : Nat := 0
  deriving DecidableEq

namespace Counters

def charge (k : Counters) : Charge → Counters
  | .cpu user sys => { k with user := k.user + user, sys := k.sys + sys }
  | .allocate bytes =>
    { k with usage := k.usage + bytes, maxUsage := max k.maxUsage (k.usage + bytes) }
  | .free bytes => { k with usage := k.usage - bytes }
  | .limitHit => { k with failcnt := k.failcnt + 1 }
  | .oomKill => { k with oomKill := k.oomKill + 1 }

/-- The counters of a new group, after these charges. -/
def tally (charges : List Charge) : Counters := charges.foldl charge {}

/-- A file with one number. -/
def number (n : Nat) : Str := decimal n ++ lit "\n"

/-- `memory.oom_control`. -/
def oomControl (k : Counters) : Str :=
  lit "oom_kill_disable 0\nunder_oom 0\noom_kill " ++ number k.oomKill

/-- The files of a group. -/
def files (k : Counters) : Controller → Files
  | .cpuacct, filename =>
    if filename = lit "cpuacct.usage" then some (number (k.user + k.sys))
    else if filename = lit "cpuacct.usage_sys" then some (number k.sys)
    else if filename = lit "cpuacct.usage_user" then some (number k.user)
    else none
  | .memory, filename =>
    if filename = lit "memory.max_usage_in_bytes" then some (number k.maxUsage)
    else if filename = lit "memory.usage_in_bytes" then some (number k.usage)
    else if filename = lit "memory.oom_control" then some k.oomControl
    else if filename = lit "memory.failcnt" then some (number k.failcnt)
    else none

end Counters

-- ---------------------------------------------------------------------------
-- Groups
-- ---------------------------------------------------------------------------

/-- A container of one of `n` workers. -/
abbrev Owner (n : Nat) := Fin n × BoxId

/-- A group. `tasks` are the containers whose processes are in it, `charged` is what these
have been charged, and `limit` what has been written to `memory.limit_in_bytes`. -/
structure Cgroup (n : Nat) where
  tasks : List (Owner n) := []
  charged : List Charge := []
  limit : Option Str := none

/-- The directories under `cgroup_root_ / name / "libsbox"`, by the name of the controller
and the id. -/
abbrev Cgroups (n : Nat) := Controller → Uid → Option (Cgroup n)

/-- What `Container::serve` writes to `memory.limit_in_bytes`, if it does. -/
def limitInBytes (memoryLimitKb : Int64) : Option Str :=
  if memoryLimitKb ≠ -1 then some (lit (toString memoryLimitKb.toInt) ++ lit "K") else none

namespace Cgroup

variable {n : Nat}

/-- The constructor of `CgroupController`, and what is written behind it. A directory that
is there already is kept as it is. -/
def create (memoryLimitKb : Int64) (ctl : Controller) (g : Option (Cgroup n)) : Cgroup n :=
  let g := g.getD {}
  match ctl with
  | .cpuacct => g
  | .memory => { g with limit := limitInBytes memoryLimitKb <|> g.limit }

/-- `CgroupController::enter`. -/
def enter (who : Owner n) (g : Cgroup n) : Cgroup n := { g with tasks := who :: g.tasks }

/-- The processes of `who` have ended. -/
def leave (who : Owner n) (g : Cgroup n) : Cgroup n := { g with tasks := g.tasks.filter (· ≠ who) }

/-- `fs::remove` finds nothing to remove, or an empty group. -/
def Removable (g : Option (Cgroup n)) : Prop := ∀ h ∈ g, h.tasks = []

instance (g : Option (Cgroup n)) : Decidable (Removable g) :=
  match g with
  | none => isTrue fun _ h => absurd h (Option.not_mem_none _)
  | some h => decidable_of_iff (h.tasks = []) (by simp [Removable])

/-- `CgroupController::_die`, which takes no notice of an error. -/
def die (g : Option (Cgroup n)) : Option (Cgroup n) := if Removable g then none else g

end Cgroup

/-- The container has controllers. -/
def ContainerAt.HasCgroups : ContainerAt → Bool
  | .fork | .startBarrier | .awaitStart | .waitForSlave | .readUsage | .umountBinds => true
  | _ => false

/-- What a step of a container or of its slave does with the groups of the container. -/
inductive CgroupCall where
  | create (memoryLimitKb : Int64)
  | enter
  | remove
  | die
  | leave
  | quiet
  deriving DecidableEq

/-- The step from `b` to `b'`. Without a slave there is no process of it either. -/
def Box.cgroupCall (b b' : Box) : CgroupCall :=
  if b'.pc = .died then if b.pc.HasCgroups then .die else .leave
  else if b.pc = .createCgroups ∧ b'.pc = .fork then .create b.block.task.memoryLimitKb
  else if b.pc = .umountBinds ∧ b'.pc = .resultsBarrier then .remove
  else if b'.slave = none then .leave
  else if b.slave.map Slave.pc = some .setupRlimits ∧ b'.slave.map Slave.pc = some .addPath then
    .enter
  else .quiet

/-- What the call makes of a group; without a result it fails. -/
def CgroupCall.apply {n : Nat} (who : Owner n) (ctl : Controller) (g : Option (Cgroup n)) :
    CgroupCall → Option (Option (Cgroup n))
  | .create memoryLimitKb => some (some (Cgroup.create memoryLimitKb ctl g))
  | .enter => g.map fun g => some (g.enter who)
  | .remove => if Cgroup.Removable g then some none else none
  | .die => some ((Cgroup.die g).map (Cgroup.leave who))
  | .leave => some (g.map (Cgroup.leave who))
  | .quiet => some g

-- ---------------------------------------------------------------------------
-- The machine
-- ---------------------------------------------------------------------------

/-- A charge, and the run of the container for which it has been made. -/
structure Entry (n : Nat) where
  who : Owner n
  request : Nat
  charge : Charge

/-- The workers of a daemon and the groups of their containers. `log` has all charges that
have been made. -/
structure Machine (n : Nat) where
  farm : Farm n
  dirs : Cgroups n := fun _ _ => none
  log : List (Entry n) := []

inductive MachineAct (n : Nat) where
  /-- A step of a worker or of a container of it that reads no group. -/
  | act (w : Fin n) (a : Act)
  | tick (w : Fin n) (c : BoxId) (wallMs : Int64)
  | readUsage (w : Fin n) (c : BoxId) (wallMs : Int64)
  /-- The kernel charges a process of the container. -/
  | charge (w : Fin n) (c : BoxId) (x : Charge)
  /-- The slave has ended, and so has the last process that it has left behind. -/
  | empties (w : Fin n) (c : BoxId)

/-- The action reads a group. -/
def Act.readsCgroup : Act → Bool
  | .tick _ _ _ | .readUsage _ _ => true
  | _ => false

namespace Machine

variable {n : Nat}

def initial (n : Nat) (firstUid : Uid) : Machine n := { farm := Farm.initial n firstUid }

def box (m : Machine n) (who : Owner n) : Box := (m.farm.worker who.1).box who.2

/-- The group of a container. -/
def group (m : Machine n) (ctl : Controller) (who : Owner n) : Option (Cgroup n) :=
  m.dirs ctl (m.box who).id

/-- The files of the group of a container. -/
def files (m : Machine n) (ctl : Controller) (who : Owner n) : Files := fun filename =>
  (m.group ctl who).bind fun g => (Counters.tally g.charged).files ctl filename

/-- The groups with the id of a container, and no others, become other ones. -/
def setGroup (m : Machine n) (who : Owner n) (g : Controller → Option (Cgroup n)) : Cgroups n :=
  fun ctl => Function.update (m.dirs ctl) (m.box who).id (g ctl)

/-- The workers go on, and the groups of the container with them. -/
def follow (m : Machine n) (who : Owner n) (f : Farm n) : Option (Machine n) :=
  let call := (m.box who).cgroupCall ((f.worker who.1).box who.2)
  match call.apply who .cpuacct (m.group .cpuacct who), call.apply who .memory (m.group .memory who) with
  | some cpuacct, some memory =>
    some { m with
      farm := f
      dirs := m.setGroup who fun
        | .cpuacct => cpuacct
        | .memory => memory }
  | _, _ => none

/-- One step of the workers, with what it does to the groups. -/
def act (pathEnv : Option Str) (m : Machine n) (w : Fin n) (a : Act) : Option (Machine n) :=
  (m.farm.step pathEnv (w, a)).bind fun f =>
    match a.box? with
    | some c => m.follow (w, c) f
    | none => some { m with farm := f }

/-- A process of the container is charged, if there is one in its group. -/
def chargeTo (m : Machine n) (who : Owner n) (x : Charge) : Option (Machine n) :=
  match m.group x.controller who with
  | none => none
  | some g =>
    if who ∈ g.tasks then
      some { m with
        dirs := Function.update m.dirs x.controller
          (Function.update (m.dirs x.controller) (m.box who).id
            (some { g with charged := g.charged ++ [x] }))
        log := m.log ++ [⟨who, (m.box who).serving, x⟩] }
    else none

/-- One step of the machine. -/
def step (pathEnv : Option Str) (reads : Chunks) (m : Machine n) : MachineAct n → Option (Machine n)
  | .act w a => if a.readsCgroup then none else m.act pathEnv w a
  | .tick w c wallMs =>
    -- the time is read only where there is a limit
    if (m.box (w, c)).block.task.timeLimitMs = -1 then m.act pathEnv w (.tick c 0 wallMs)
    else (getTimeUsageMs reads (m.files .cpuacct (w, c))).bind fun cpuMs =>
      m.act pathEnv w (.tick c cpuMs wallMs)
  | .readUsage w c wallMs =>
    (readUsage reads (m.files .cpuacct (w, c)) (m.files .memory (w, c)) wallMs).bind fun u =>
      m.act pathEnv w (.readUsage c u)
  | .charge w c x => m.chargeTo (w, c) x
  | .empties w c =>
    match (m.box (w, c)).slave with
    | some ⟨.zombie _, _⟩ =>
      some { m with dirs := m.setGroup (w, c) fun ctl =>
        (m.group ctl (w, c)).map (Cgroup.leave (w, c)) }
    | _ => none

end Machine

/-- `CgroupController::init` for a controller goes through: `libsbox` has no directory in it. -/
def cgroupInitOk {n : Nat} (dirs : Cgroups n) (ctl : Controller) : Prop := ∀ id, dirs ctl id = none

end Libsbox
