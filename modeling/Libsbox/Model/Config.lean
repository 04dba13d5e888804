import Libsbox.Lib.Json
import Libsbox.Model.Halt
import Libsbox.Model.System

/-!
# libsbox — the configuration

The file that the daemon reads once (config.cpp). `Config::load` checks the types of the
members and nothing else.
-/

namespace Libsbox

open CMemory JsonDoc

/-- `Config`. -/
structure Config where
  numBoxes : UInt32
  socketPath : Str
  firstUid : Uid
  boxDir : Str
  cgroupRoot : Str
  timerIntervalMs : UInt32

/-- The integers that fit into `uint32_t`. -/
def uint32? : Json → Option UInt32
  | .int n => if 0 ≤ n.val ∧ n.val < 2 ^ 32 then some (UInt32.ofNat n.val.toNat) else none
  | _ => none

/-- `GET_MEMBER` of `Config::load`. -/
def Config.getMember {α : Type} (get : Json → Option α) (document : Json) (key : String) :
    Except Halt α :=
  match (document.member? key).bind get with
  | some a => .ok a
  | none => .error (.die (lit "Config JSON is incorrect"))

/-- `Config::load` of a file that is JSON. -/
def Config.load (document : Json) : Except Halt Config := do
  let numBoxes ← getMember uint32? document "num_boxes"
  let socketPath ← getMember Json.cString? document "socket_path"
  let firstUid ← getMember uint32? document "first_uid"
  let boxDir ← getMember Json.cString? document "box_dir"
  let cgroupRoot ← getMember Json.cString? document "cgroup_root"
  let timerIntervalMs ← getMember Json.int64? document "timer_interval_ms"
  -- timer_interval_ms_ is a uint32_t
  return {
    numBoxes, socketPath, firstUid, boxDir, cgroupRoot
    timerIntervalMs := timerIntervalMs.toUInt64.toUInt32 }

end Libsbox
