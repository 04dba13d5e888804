import Libsbox.Container.WaitForSlave
import Libsbox.Model.Config

/-!
# libsbox — the timer

The timer that interrupts `waitpid` in `Container::wait_for_slave`, from the configuration
to `setitimer`. `Config::load` takes any `int64_t` for `timer_interval_ms` and keeps its low
32 bits; `start_timer` makes microseconds of that in 32 bits and leaves the seconds 0.

`setitimer` refuses a number of microseconds outside of 0 .. 999999 with `EINVAL` and then
changes nothing. `start_timer` does not look at its result.

## Results

* `startTimer_kept_iff` — when the timer that runs behind `start_timer` is the one asked
  for;
* `timerKept_iff` — for which configurations it is.
-/

namespace Libsbox

open CMemory JsonDoc

/-- `struct timeval`. -/
structure Timeval where
  tvSec : Int
  tvUsec : Int
  deriving DecidableEq

/-- `struct itimerval`. -/
structure Itimerval where
  itInterval : Timeval
  itValue : Timeval
  deriving DecidableEq

namespace Timeval

def zero : Timeval := ⟨0, 0⟩

def Valid (t : Timeval) : Prop := 0 ≤ t.tvSec ∧ 0 ≤ t.tvUsec ∧ t.tvUsec < 1000000

instance (t : Timeval) : Decidable t.Valid := inferInstanceAs (Decidable (_ ∧ _))

def microseconds (t : Timeval) : Int := t.tvSec * 1000000 + t.tvUsec

end Timeval

namespace Itimerval

/-- No timer. -/
def disarmed : Itimerval := ⟨.zero, .zero⟩

def Valid (t : Itimerval) : Prop := t.itInterval.Valid ∧ t.itValue.Valid

instance (t : Itimerval) : Decidable t.Valid := inferInstanceAs (Decidable (_ ∧ _))

/-- A timer goes off for the first time after `it_value`, if that is not zero. -/
def Armed (t : Itimerval) : Prop := t.itValue ≠ .zero

end Itimerval

/-- `setitimer`, on a process in which the timer `old` runs. -/
def setitimer (new old : Itimerval) : Itimerval := if new.Valid then new else old

/-- What `start_timer` passes to it; the product is one of `uint32_t`. -/
def timerFor (interval : UInt32) : Itimerval :=
  let usec : Timeval := ⟨0, (interval * 1000).toNat⟩
  ⟨usec, usec⟩

def startTimer (interval : UInt32) (old : Itimerval) : Itimerval := setitimer (timerFor interval) old

def stopTimer (old : Itimerval) : Itimerval := setitimer .disarmed old

/-- The timer interrupts the process every `ms` milliseconds. -/
structure TimerKept (ms : Int) (t : Itimerval) : Prop where
  valid : t.Valid
  armed : t.Armed
  first : t.itValue.microseconds = ms * 1000
  period : t.itInterval.microseconds = ms * 1000

variable {document : Json} {config : Config} {ms : Int64}

/-- Behind a `stop_timer`, the timer that `start_timer` asks for runs or none does. -/
theorem startTimer_running (interval : UInt32) (old : Itimerval) :
    startTimer interval (stopTimer old) =
      if (timerFor interval).Valid then timerFor interval else .disarmed := rfl

/-- `Config::load` keeps the low half of the interval. -/
theorem load_timerInterval (hLoad : Config.load document = .ok config)
    (hMs : (document.member? "timer_interval_ms").bind Json.int64? = some ms) :
    config.timerIntervalMs = ms.toUInt64.toUInt32 := by
  obtain ⟨numBoxes, -, h⟩ := bind_eq_ok hLoad
  obtain ⟨socketPath, -, h⟩ := bind_eq_ok h
  obtain ⟨firstUid, -, h⟩ := bind_eq_ok h
  obtain ⟨boxDir, -, h⟩ := bind_eq_ok h
  obtain ⟨cgroupRoot, -, h⟩ := bind_eq_ok h
  obtain ⟨interval, hInterval, h⟩ := bind_eq_ok h
  rw [Config.getMember, hMs] at hInterval
  cases hInterval
  cases h
  rfl

/-- The microseconds that `start_timer` computes. -/
theorem timerFor_usec (hPos : 0 < ms.toInt) :
    (ms.toUInt64.toUInt32 * 1000).toNat = ms.toInt.toNat % 2 ^ 32 * 1000 % 2 ^ 32 := by
  have hNonneg : 0 ≤ ms := Int64.le_iff_toInt_le.mpr hPos.le
  rw [UInt32.toNat_mul, UInt64.toNat_toUInt32, Int64.toNat_toUInt64_of_le hNonneg, Int64.toNat_toInt]
  rfl

/-- 32 bits and no seconds are enough up to 999 milliseconds. -/
theorem usec_iff (n : Nat) (hPos : 0 < n) :
    (n % 2 ^ 32 * 1000 % 2 ^ 32 < 1000000 ∧ n % 2 ^ 32 * 1000 % 2 ^ 32 = n * 1000) ↔ n < 1000 := by
  constructor
  · rintro ⟨hValid, hEq⟩
    omega
  · intro hLt
    rw [Nat.mod_eq_of_lt (by omega), Nat.mod_eq_of_lt (by omega)]
    omega

theorem timerFor_kept_iff (hPos : 0 < ms.toInt) :
    TimerKept ms.toInt (timerFor ms.toUInt64.toUInt32) ↔ ms.toInt < 1000 := by
  obtain ⟨n, hn⟩ := Int.eq_ofNat_of_zero_le hPos.le
  have hUsec := timerFor_usec hPos
  rw [hn] at hPos hUsec ⊢
  have hIff := usec_iff n (Int.natCast_pos.mp hPos)
  have hArg : timerFor ms.toUInt64.toUInt32 =
      ⟨⟨0, (n % 2 ^ 32 * 1000 % 2 ^ 32 : Nat)⟩, ⟨0, (n % 2 ^ 32 * 1000 % 2 ^ 32 : Nat)⟩⟩ := by
    rw [timerFor, hUsec]
    rfl
  rw [hArg]
  clear hUsec hArg
  generalize n % 2 ^ 32 * 1000 % 2 ^ 32 = usec at hIff ⊢
  constructor
  · intro hKept
    have hValid := hKept.valid.1.2.2
    have hPeriod := hKept.period
    simp only [Timeval.microseconds] at hPeriod hValid
    have hLt := hIff.mp ⟨by omega, by omega⟩
    omega
  · intro hLt
    obtain ⟨hSmall, hEq⟩ := hIff.mpr (by omega)
    have hBound : (usec : Int) < 1000000 := by omega
    have hValid : Timeval.Valid ⟨0, usec⟩ := ⟨le_refl _, Int.natCast_nonneg usec, hBound⟩
    have hMicro : Timeval.microseconds ⟨0, usec⟩ = (n : Int) * 1000 := by
      simp only [Timeval.microseconds]
      omega
    refine ⟨⟨hValid, hValid⟩, fun hZero => ?_, hMicro, hMicro⟩
    have hNone : (usec : Int) = 0 := congrArg Timeval.tvUsec hZero
    omega

/-- Where the timer is not the one asked for, it may be that none runs. -/
theorem startTimer_kept_iff (hPos : 0 < ms.toInt) (old : Itimerval) :
    TimerKept ms.toInt (startTimer ms.toUInt64.toUInt32 (stopTimer old)) ↔ ms.toInt < 1000 := by
  rw [startTimer_running]
  split
  · exact timerFor_kept_iff hPos
  · rename_i hRefused
    refine iff_of_false (fun hKept => hKept.armed rfl) fun hLt => hRefused ?_
    exact ((timerFor_kept_iff hPos).mpr hLt).valid

/-- **The timer is the one asked for** if and only if its interval is less than a second. -/
theorem timerKept_iff (hLoad : Config.load document = .ok config)
    (hMs : (document.member? "timer_interval_ms").bind Json.int64? = some ms)
    (hPos : 0 < ms.toInt) :
    TimerKept ms.toInt (timerFor config.timerIntervalMs) ↔ ms.toInt < 1000 := by
  rw [load_timerInterval hLoad hMs]
  exact timerFor_kept_iff hPos

/-- A configuration with that interval. -/
def timerConfig (ms : StoredInt) : Json :=
  .object [
    (lit "num_boxes", .int ⟨2, by decide, by decide⟩),
    (lit "socket_path", .string (lit "/run/libsboxd.sock")),
    (lit "first_uid", .int ⟨60000, by decide, by decide⟩),
    (lit "box_dir", .string (lit "/var/lib/libsboxd")),
    (lit "cgroup_root", .string (lit "/sys/fs/cgroup")),
    (lit "timer_interval_ms", .int ms)]

/-- The interval of the configuration file that comes with the daemon. -/
theorem timerKept_iff_twenty :
    ∃ config, Config.load (timerConfig ⟨20, by decide, by decide⟩) = .ok config ∧
      TimerKept 20 (timerFor config.timerIntervalMs) := by
  obtain ⟨config, hLoad⟩ : ∃ config,
    Config.load (timerConfig ⟨20, by decide, by decide⟩) = .ok config := ⟨_, rfl⟩
  have hMs : ((timerConfig ⟨20, by decide, by decide⟩).member? "timer_interval_ms").bind Json.int64? =
    some 20 := rfl
  exact ⟨config, hLoad, (timerKept_iff hLoad hMs (by decide)).mpr (by decide)⟩

/-- With an interval of a second the kernel refuses the timer, and none runs. -/
theorem second_never_ticks :
    ¬ ∀ (document : Json) (config : Config) (ms : Int64), Config.load document = .ok config →
      (document.member? "timer_interval_ms").bind Json.int64? = some ms → 0 < ms.toInt →
      TimerKept ms.toInt (timerFor config.timerIntervalMs) := by
  intro hClaim
  obtain ⟨config, hLoad, hInterval⟩ : ∃ config,
      Config.load (timerConfig ⟨1000, by decide, by decide⟩) = .ok config ∧
        config.timerIntervalMs = 1000 := ⟨_, rfl, rfl⟩
  have hMs : ((timerConfig ⟨1000, by decide, by decide⟩).member? "timer_interval_ms").bind
    Json.int64? = some 1000 := rfl
  have hKept := hClaim _ config 1000 hLoad hMs (by decide)
  rw [hInterval] at hKept
  exact absurd hKept.valid (by decide)

end Libsbox
