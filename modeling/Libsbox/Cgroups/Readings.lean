import Libsbox.Model.Cgroups

/-!
# libsbox — what a container reads out of its cgroups

The texts that the kernel makes of its counters, and what `wait_for_slave` makes of the
texts. `std::stoll` gives a `long long`, and throws where the number is larger.

## Results

* `readFile_eq` — a text without a NUL is read as it is, however it comes in;
* `readUsage_files` — the numbers that are read are those of the kernel.
-/

namespace Libsbox

open CMemory

-- ---------------------------------------------------------------------------
-- Files
-- ---------------------------------------------------------------------------

/-- **A text without a NUL is read as it is.** -/
theorem readFile_eq (reads : Chunks) {content : Str} (h : (0 : UInt8) ∉ content) :
    readFile reads content = content := by
  have hChunks : (reads.chunks content).map cstr = reads.chunks content := by
    conv_rhs => rw [← List.map_id (reads.chunks content)]
    refine List.map_congr_left fun chunk hChunk => cstr_of_nul_free fun hNul => h ?_
    rw [← reads.whole content]
    exact List.mem_flatten.mpr ⟨chunk, hChunk, hNul⟩
  rw [readFile, hChunks, reads.whole]

theorem nul_notMem_append {s t : Str} (hs : (0 : UInt8) ∉ s) (ht : (0 : UInt8) ∉ t) :
    (0 : UInt8) ∉ s ++ t := by
  intro hMem
  rcases List.mem_append.mp hMem with hMem | hMem
  · exact hs hMem
  · exact ht hMem

namespace Counters

variable {reads : Chunks} {k : Counters}

theorem nul_notMem_number (n : Nat) : (0 : UInt8) ∉ number n :=
  nul_notMem_append (nul_notMem_decimal n) (by decide +kernel)

theorem nul_notMem_oomControl (k : Counters) : (0 : UInt8) ∉ k.oomControl :=
  nul_notMem_append (by decide +kernel) (nul_notMem_number _)

/-- A number is read back, if it fits. -/
theorem readNumber_number {files : Files} {filename : Str} {n : Nat}
    (h : files filename = some (number n)) :
    readNumber reads files filename = if n < 2 ^ 63 then some (Int64.ofNat n) else none := by
  have hNewline : ∀ c ∈ (lit "\n").head?, isDigit c = false := by decide +kernel
  rw [readNumber, h, Option.bind_some, readFile_eq reads (nul_notMem_number n), number,
    stoll_decimal n hNewline]

-- ---------------------------------------------------------------------------
-- The field of oom_control
-- ---------------------------------------------------------------------------

theorem words_number (n : Nat) : words (number n) = [decimal n] := by
  have hNewline : number n = decimal n ++ 10 :: [] := rfl
  rw [hNewline, words_append (decimal_not_space n) (decimal_ne_nil n) (by decide +kernel), words_nil]

/-- The words of the file. -/
theorem words_oomControl (k : Counters) : words k.oomControl =
    [lit "oom_kill_disable", lit "0", lit "under_oom", lit "0", lit "oom_kill",
      decimal k.oomKill] := by
  have hText : k.oomControl = lit "oom_kill_disable" ++ 32 :: (lit "0" ++ 10 ::
      (lit "under_oom" ++ 32 :: (lit "0" ++ 10 :: (lit "oom_kill" ++ 32 :: number k.oomKill)))) :=
    rfl
  rw [hText, words_append (by decide +kernel) (by decide +kernel) (by decide +kernel),
    words_append (by decide +kernel) (by decide +kernel) (by decide +kernel),
    words_append (by decide +kernel) (by decide +kernel) (by decide +kernel),
    words_append (by decide +kernel) (by decide +kernel) (by decide +kernel),
    words_append (by decide +kernel) (by decide +kernel) (by decide +kernel), words_number]

theorem oomKillField_oomControl (k : Counters) :
    oomKillField (words k.oomControl) = some (decide (k.oomKill ≠ 0)) := by
  have hZero : decimal k.oomKill ≠ lit "0" ↔ k.oomKill ≠ 0 := by
    have hLit : lit "0" = decimal 0 := by decide +kernel
    rw [hLit, decimal_injective.ne_iff]
  rw [words_oomControl]
  show some (decide (decimal k.oomKill ≠ lit "0")) = _
  simp only [hZero]

-- ---------------------------------------------------------------------------
-- Two controllers
-- ---------------------------------------------------------------------------

/-- The counters of a controller are the same. -/
def Agree (ctl : Controller) (k k' : Counters) : Prop :=
  match ctl with
  | .cpuacct => k.user = k'.user ∧ k.sys = k'.sys
  | .memory => k.usage = k'.usage ∧ k.maxUsage = k'.maxUsage ∧ k.failcnt = k'.failcnt ∧
    k.oomKill = k'.oomKill

theorem Agree.files {ctl : Controller} {k' : Counters} (h : Agree ctl k k') :
    k.files ctl = k'.files ctl := by
  funext filename
  cases ctl with
  | cpuacct =>
    obtain ⟨hUser, hSys⟩ := h
    simp only [Counters.files, hUser, hSys]
  | memory =>
    obtain ⟨hUsage, hMax, hFailcnt, hOomKill⟩ := h
    simp only [Counters.files, oomControl, hUsage, hMax, hFailcnt, hOomKill]

/-- A controller does not count what another one counts. -/
theorem Agree.filter {ctl : Controller} (charges : List Charge) {k k' : Counters}
    (h : Agree ctl k k') :
    Agree ctl ((charges.filter fun x => x.controller = ctl).foldl charge k)
      (charges.foldl charge k') := by
  induction charges generalizing k k' with
  | nil => exact h
  | cons x charges ih =>
    rw [List.foldl_cons]
    by_cases hCtl : x.controller = ctl
    · rw [List.filter_cons_of_pos (by simpa using hCtl), List.foldl_cons]
      refine ih ?_
      cases x <;> cases ctl <;> simp_all [Agree, charge]
    · rw [List.filter_cons_of_neg (by simpa using hCtl)]
      refine ih ?_
      cases x <;> cases ctl <;> simp_all [Agree, charge, Charge.controller]

/-- So the files of its group are those that all charges make. -/
theorem files_filter (charges : List Charge) (ctl : Controller) :
    (tally (charges.filter fun x => x.controller = ctl)).files ctl = (tally charges).files ctl := by
  have hAgree : Agree ctl (tally (charges.filter fun x => x.controller = ctl)) (tally charges) := by
    refine Agree.filter charges ?_
    cases ctl <;> simp [Agree]
  exact hAgree.files

-- ---------------------------------------------------------------------------
-- All of them
-- ---------------------------------------------------------------------------

/-- The numbers fit into a `long long`. -/
def Fits (k : Counters) : Prop :=
  k.user + k.sys < 2 ^ 63 ∧ k.usage < 2 ^ 63 ∧ k.maxUsage < 2 ^ 63 ∧ k.failcnt < 2 ^ 63

instance (k : Counters) : Decidable k.Fits := inferInstanceAs (Decidable (_ ∧ _))

/-- What is to be said about a run with these counters. -/
def report (k : Counters) (wallMs : Int64) : Usage where
  timeUsageMs := Int64.ofNat ((k.user + k.sys) / 1000000)
  timeUsageSysMs := Int64.ofNat (k.sys / 1000000)
  timeUsageUserMs := Int64.ofNat (k.user / 1000000)
  wallTimeUsageMs := wallMs
  memoryUsageKb := Int64.ofNat (max k.maxUsage k.usage / 1024)
  oomKilled := k.oomKill ≠ 0
  memoryLimitHit := k.failcnt ≠ 0

/-- A number of nanoseconds, in milliseconds. -/
theorem readMs_files {filename : Str} {n : Nat}
    (h : k.files .cpuacct filename = some (number n)) :
    (readNumber reads (k.files .cpuacct) filename).map (fun n => n / 1000000) =
      if n < 2 ^ 63 then some (Int64.ofNat (n / 1000000)) else none := by
  rw [readNumber_number h]
  by_cases hFits : n < 2 ^ 63
  · rw [if_pos hFits, if_pos hFits, Option.map_some, Int64.ofNat_div hFits (by decide +kernel)]
    rfl
  · rw [if_neg hFits, if_neg hFits, Option.map_none]

theorem getMemoryUsageKb_files (hUsage : k.usage < 2 ^ 63) (hMax : k.maxUsage < 2 ^ 63) :
    getMemoryUsageKb reads (k.files .memory) =
      some (Int64.ofNat (max k.maxUsage k.usage / 1024)) := by
  have hMaxFile : k.files .memory (lit "memory.max_usage_in_bytes") = some (number k.maxUsage) := rfl
  have hFile : k.files .memory (lit "memory.usage_in_bytes") = some (number k.usage) := rfl
  have hLt : Int64.ofNat k.maxUsage < Int64.ofNat k.usage ↔ k.maxUsage < k.usage :=
    Int64.ofNat_lt_iff_lt hMax hUsage
  have hLarger : (if Int64.ofNat k.maxUsage < Int64.ofNat k.usage then Int64.ofNat k.usage
      else Int64.ofNat k.maxUsage) = Int64.ofNat (max k.maxUsage k.usage) := by
    rcases Nat.lt_or_ge k.maxUsage k.usage with hOver | hUnder
    · rw [if_pos (hLt.mpr hOver), Nat.max_eq_right (Nat.le_of_lt hOver)]
    · rw [if_neg (hLt.not.mpr (Nat.not_lt.mpr hUnder)), Nat.max_eq_left hUnder]
  have hBound : max k.maxUsage k.usage < 2 ^ 63 := by omega
  rw [getMemoryUsageKb, readNumber_number hMaxFile, if_pos hMax, readNumber_number hFile,
    if_pos hUsage]
  show some (_ / 1024) = _
  rw [hLarger, Int64.ofNat_div hBound (by decide +kernel)]
  rfl

theorem getMemoryUsageKb_eq_none (h : ¬ (k.usage < 2 ^ 63 ∧ k.maxUsage < 2 ^ 63)) :
    getMemoryUsageKb reads (k.files .memory) = none := by
  have hMaxFile : k.files .memory (lit "memory.max_usage_in_bytes") = some (number k.maxUsage) := rfl
  have hFile : k.files .memory (lit "memory.usage_in_bytes") = some (number k.usage) := rfl
  rw [getMemoryUsageKb, readNumber_number hMaxFile, readNumber_number hFile]
  by_cases hMax : k.maxUsage < 2 ^ 63
  · rw [if_pos hMax, if_neg fun hUsage => h ⟨hUsage, hMax⟩]
    rfl
  · rw [if_neg hMax]
    rfl

theorem isOomKilled_files (k : Counters) :
    isOomKilled reads (k.files .memory) = some (decide (k.oomKill ≠ 0)) := by
  have hFile : k.files .memory (lit "memory.oom_control") = some k.oomControl := rfl
  rw [isOomKilled, hFile, Option.bind_some, readFile_eq reads (nul_notMem_oomControl k),
    oomKillField_oomControl]

theorem isMemoryLimitHit_files :
    isMemoryLimitHit reads (k.files .memory) =
      if k.failcnt < 2 ^ 63 then some (decide (k.failcnt ≠ 0)) else none := by
  have hFile : k.files .memory (lit "memory.failcnt") = some (number k.failcnt) := rfl
  rw [isMemoryLimitHit, readNumber_number hFile]
  by_cases hFits : k.failcnt < 2 ^ 63
  · have hZero : Int64.ofNat k.failcnt ≠ 0 ↔ k.failcnt ≠ 0 := by
      refine not_congr ⟨fun hEq => ?_, fun hEq => by rw [hEq]; rfl⟩
      have hInt := congrArg Int64.toInt hEq
      rw [Int64.toInt_ofNat_of_lt hFits] at hInt
      exact Int.ofNat_inj.mp hInt
    rw [if_pos hFits, if_pos hFits, Option.map_some]
    simp only [hZero]
  · rw [if_neg hFits, if_neg hFits, Option.map_none]

/-- **The numbers that a container reads are those of the kernel**, however the reads hand
out the files. Where one of them does not fit into a `long long`, the container ends. -/
theorem readUsage_files (reads : Chunks) (k : Counters) (wallMs : Int64) :
    readUsage reads (k.files .cpuacct) (k.files .memory) wallMs =
      if k.Fits then some (k.report wallMs) else none := by
  rw [readUsage, getTimeUsageMs, getTimeUsageSysMs, getTimeUsageUserMs,
    readMs_files (n := k.user + k.sys) rfl, readMs_files (n := k.sys) rfl,
    readMs_files (n := k.user) rfl, isOomKilled_files, isMemoryLimitHit_files]
  by_cases hCpu : k.user + k.sys < 2 ^ 63
  · rw [if_pos hCpu, if_pos (show k.sys < 2 ^ 63 by omega), if_pos (show k.user < 2 ^ 63 by omega)]
    by_cases hMemory : k.usage < 2 ^ 63 ∧ k.maxUsage < 2 ^ 63
    · rw [getMemoryUsageKb_files hMemory.1 hMemory.2]
      by_cases hFailcnt : k.failcnt < 2 ^ 63
      · rw [if_pos hFailcnt, if_pos (show k.Fits from ⟨hCpu, hMemory.1, hMemory.2, hFailcnt⟩)]
        rfl
      · rw [if_neg hFailcnt, if_neg fun hFits : k.Fits => hFailcnt hFits.2.2.2]
        rfl
    · rw [getMemoryUsageKb_eq_none hMemory,
        if_neg fun hFits : k.Fits => hMemory ⟨hFits.2.1, hFits.2.2.1⟩]
      rfl
  · rw [if_neg hCpu, if_neg fun hFits : k.Fits => hCpu hFits.1]
    rfl

end Counters

end Libsbox
