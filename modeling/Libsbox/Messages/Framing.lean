import Libsbox.Client.RunTogether
import Libsbox.Model.Service

/-!
# libsbox — messages on the socket

A request ends with a NUL, a response with the end of the stream. Both sides receive at most
1023 bytes at a time into a buffer of 1024, put a NUL behind them by hand, and append the
buffer as a C string. The buffer of `Worker::serve` is a new one in each round, with whatever
lies on the stack; the one of `run_together` still has the bytes of the rounds before.

## Results

* `serveRound_eq` — a round of `Worker::serve`, whatever the buffer held;
* `framing_of_chunks` — what is received does not depend on how the stream is cut;
* `Server.received_round`, `receiveLoop_response` — the rounds are the receive steps of the
  service, and the response is that of the call.
-/

namespace Libsbox

open CMemory

-- ---------------------------------------------------------------------------
-- The two loops
-- ---------------------------------------------------------------------------

abbrev RecvBuf := Vector UInt8 1024

/-- What one `recv` of up to 1023 bytes delivers before the end of the stream. -/
structure Chunk where
  bytes : Str
  pos : 0 < bytes.length
  fits : bytes.length ≤ 1023

/-- `recv` into `buf`, and `buf[bytes_read] = 0`. -/
def RecvBuf.fill (buf : RecvBuf) (bytes : Str) : Option RecvBuf := do
  let buf ← copy buf 0 bytes
  store buf bytes.length 0

/-- A round of `Worker::serve`: the request behind it, and whether there was a NUL. -/
def serveRound (buf : RecvBuf) (request bytes : Str) : Option (Str × Bool) := do
  let buf ← buf.fill bytes
  let text ← cstrIn buf
  return (request ++ text, decide (text.length < bytes.length))

/-- The loop of `Worker::serve`. Each chunk comes with the buffer that it is received into.
The result is the request with what has not been read. -/
def serveLoop (request : Str) : List (RecvBuf × Chunk) → Option (Str × List (RecvBuf × Chunk))
  | [] => some (request, [])
  | (buf, chunk) :: reads => do
    let (request, nul) ← serveRound buf request chunk.bytes
    if nul then return (request, reads) else serveLoop request reads

/-- The loop of `run_together`. -/
def receiveLoop (buf : RecvBuf) (res : Str) : List Chunk → Option Str
  | [] => some res
  | chunk :: chunks => do
    let buf ← buf.fill chunk.bytes
    let text ← cstrIn buf
    receiveLoop buf (res ++ text) chunks

/-- The bytes that a list of chunks is cut from. -/
def streamOf (reads : List (RecvBuf × Chunk)) : Str := reads.flatMap fun read => read.2.bytes

/-- What is left behind the first chunk with a NUL. -/
def unread (reads : List (RecvBuf × Chunk)) : List (RecvBuf × Chunk) :=
  (reads.dropWhile fun read => 0 ∉ read.2.bytes).tail

-- ---------------------------------------------------------------------------
-- One round
-- ---------------------------------------------------------------------------

/-- The bytes and the NUL behind them stand at the front of the buffer. -/
theorem RecvBuf.fill_front (buf : RecvBuf) {bytes : Str} (hFits : bytes.length ≤ 1023) :
    ∃ buf' rest, buf.fill bytes = some buf' ∧ buf'.toList = bytes ++ 0 :: rest := by
  have hLength : buf.toList.length = 1024 := by simp
  -- the first bytes of the buffer, the one behind them, and the others
  obtain ⟨old, tail, hOld, hBuf⟩ : ∃ old tail, old.length = bytes.length ∧
      buf.toList = old ++ tail :=
    ⟨buf.toList.take bytes.length, buf.toList.drop bytes.length, by
      rw [List.length_take, hLength]
      omega, (List.take_append_drop _ _).symm⟩
  cases tail with
  | nil =>
    rw [hBuf, List.append_nil] at hLength
    omega
  | cons last rest =>
    have hFront : buf.toList = ([] : Str) ++ (old ++ last :: rest) := hBuf
    obtain ⟨copied, hCopy, hCopied⟩ := copy_extends hFront hOld
    obtain ⟨buf', hStore, hEnd⟩ := store_extends (x := 0) hCopied
    refine ⟨buf', rest, ?_, hEnd⟩
    rw [RecvBuf.fill]
    show (copy buf ([] : Str).length bytes >>= _) = _
    rw [hCopy]
    exact hStore

theorem RecvBuf.fill_cstr (buf : RecvBuf) {bytes : Str} (hFits : bytes.length ≤ 1023) :
    ∃ buf', buf.fill bytes = some buf' ∧ cstrIn buf' = some (cstr bytes) := by
  obtain ⟨buf', rest, hFill, hFront⟩ := buf.fill_front hFits
  refine ⟨buf', hFill, ?_⟩
  rw [cstrIn, hFront, cstr_append_nul]
  exact if_pos (by simp)

theorem serveRound_eq (buf : RecvBuf) (request : Str) {bytes : Str}
    (hFits : bytes.length ≤ 1023) :
    serveRound buf request bytes = some (request ++ cstr bytes, decide (0 ∈ bytes)) := by
  obtain ⟨buf', hFill, hText⟩ := buf.fill_cstr hFits
  rw [serveRound, hFill, Option.bind_eq_bind, Option.bind_some, hText]
  simp [cstr_length_lt_iff]

-- ---------------------------------------------------------------------------
-- All rounds
-- ---------------------------------------------------------------------------

theorem serveLoop_eq : ∀ (reads : List (RecvBuf × Chunk)) (request : Str),
    serveLoop request reads = some (request ++ cstr (streamOf reads), unread reads) := by
  intro reads
  induction reads with
  | nil =>
    intro request
    simp [serveLoop, streamOf, unread, cstr]
  | cons read reads ih =>
    intro request
    obtain ⟨buf, chunk⟩ := read
    have hStream : streamOf ((buf, chunk) :: reads) = chunk.bytes ++ streamOf reads := rfl
    rw [serveLoop, serveRound_eq buf request chunk.fits, hStream]
    by_cases hNul : (0 : UInt8) ∈ chunk.bytes
    · rw [cstr_append_of_nul hNul]
      simp [hNul, unread]
    · rw [cstr_append_of_nul_free hNul, ← List.append_assoc]
      have hRest := ih (request ++ chunk.bytes)
      simpa [hNul, unread, cstr_of_nul_free hNul] using hRest

theorem receiveLoop_eq (chunks : List Chunk) : ∀ (buf : RecvBuf) (res : Str),
    receiveLoop buf res chunks = some (res ++ chunks.flatMap fun chunk => cstr chunk.bytes) := by
  induction chunks with
  | nil =>
    intro buf res
    simp [receiveLoop]
  | cons chunk chunks ih =>
    intro buf res
    obtain ⟨buf', hFill, hText⟩ := buf.fill_cstr chunk.fits
    rw [receiveLoop, hFill, Option.bind_eq_bind, Option.bind_some, hText, Option.bind_eq_bind,
      Option.bind_some, ih, List.flatMap_cons, List.append_assoc]

/-- The response that `run_together` goes on with. -/
theorem receiveLoop_response (buf : RecvBuf) (chunks : List Chunk) (tasks : List Task) :
    receiveLoop buf [] chunks =
      Call.response? ⟨tasks, .received (chunks.map Chunk.bytes)⟩ := by
  show _ = some ((chunks.map Chunk.bytes).flatMap cstr)
  rw [receiveLoop_eq, List.nil_append, List.flatMap_map]

namespace Server

variable {v : Server} {request : Str}

/-- A round of the loop is a step of the service. -/
theorem received_round (buf : RecvBuf) (chunk : Chunk) (hPc : v.pc = .recv request)
    {request' : Str} {nul : Bool}
    (h : serveRound buf request chunk.bytes = some (request', nul)) :
    v.received chunk.bytes =
      some { v with pc := if nul then .process request' else .recv request' } := by
  rw [serveRound_eq buf request chunk.fits] at h
  obtain ⟨rfl, rfl⟩ := Prod.mk.inj (Option.some.inj h)
  have hFits : chunk.bytes.length < 1024 := Nat.lt_succ_of_le chunk.fits
  have hSome : chunk.bytes ≠ [] := List.ne_nil_of_length_pos chunk.pos
  simp [received, hPc, hFits, hSome]

/-- So is the end of the stream. -/
theorem received_end (hPc : v.pc = .recv request) :
    v.received [] = some { v with pc := .process request } := by
  simp [received, hPc, cstr]

end Server

-- ---------------------------------------------------------------------------
-- Messages
-- ---------------------------------------------------------------------------

/-- `p` is the longest prefix of `s` without a NUL. -/
def LongestNulFree (s p : Str) : Prop :=
  p <+: s ∧ (0 : UInt8) ∉ p ∧ ∀ q, q <+: s → (0 : UInt8) ∉ q → q <+: p

theorem longestNulFree_cstr (s : Str) : LongestNulFree s (cstr s) :=
  ⟨cstr_isPrefix s, nul_notMem_cstr s, fun _ => prefix_cstr⟩

/-- Nothing stands behind the NUL of a message. -/
theorem rest_of_message {message pre rest : Str} (hMessage : (0 : UInt8) ∉ message)
    (h : pre ++ 0 :: rest = message ++ [0]) : rest = [] := by
  rcases List.eq_nil_or_concat' rest with hNil | ⟨rest', last, rfl⟩
  · exact hNil
  · have hSame : (pre ++ 0 :: rest') ++ [last] = message ++ [0] := by simpa using h
    have hInner := List.append_inj_left' hSame rfl
    exact absurd (hInner ▸ List.mem_append_right pre List.mem_cons_self) hMessage

theorem streamOf_eq_nil {reads : List (RecvBuf × Chunk)} (h : streamOf reads = []) :
    reads = [] := by
  cases reads with
  | nil => rfl
  | cons read reads =>
    have hEmpty : read.2.bytes = [] := (List.append_eq_nil_iff.mp h).1
    exact absurd hEmpty (List.ne_nil_of_length_pos read.2.pos)

/-- When the only NUL is the last byte of the stream, nothing is left to read. -/
theorem unread_message (reads : List (RecvBuf × Chunk)) : ∀ {message : Str},
    (0 : UInt8) ∉ message → streamOf reads = message ++ [0] → unread reads = [] := by
  induction reads with
  | nil => exact fun _ _ => rfl
  | cons read reads ih =>
    intro message hMessage hStream
    have hCut : read.2.bytes ++ streamOf reads = message ++ [0] := hStream
    by_cases hNul : (0 : UInt8) ∈ read.2.bytes
    · obtain ⟨pre, rest, hBytes⟩ := List.append_of_mem hNul
      rw [hBytes, List.append_assoc, List.cons_append] at hCut
      have hRest := rest_of_message hMessage hCut
      rw [streamOf_eq_nil (List.append_eq_nil_iff.mp hRest).2]
      simp [unread, hNul]
    · have hSkip : unread (read :: reads) = unread reads := by simp [unread, hNul]
      rw [hSkip]
      rcases List.append_eq_append_iff.mp hCut with ⟨left, hLeft, hRest⟩ | ⟨beyond, hBeyond, hRest⟩
      · refine ih (fun hIn => hMessage ?_) hRest
        rw [hLeft]
        exact List.mem_append_right _ hIn
      · -- the chunk ends right before the NUL
        have hNone : beyond = [] := by
          rcases List.append_eq_singleton_iff.mp hRest.symm with ⟨hNil, -⟩ | ⟨hZero, -⟩
          · exact hNil
          · exact absurd (by simp [hBeyond, hZero]) hNul
        rw [hNone, List.nil_append] at hRest
        exact ih (List.not_mem_nil) hRest.symm

/-- A message and its NUL arrive as the message. -/
theorem serveLoop_message {message : Str} {reads : List (RecvBuf × Chunk)}
    (hMessage : (0 : UInt8) ∉ message) (hStream : streamOf reads = message ++ [0]) :
    serveLoop [] reads = some (message, []) := by
  have hText : cstr (message ++ [0]) = message := by
    rw [cstr_append_nul, cstr_of_nul_free hMessage]
  rw [serveLoop_eq, hStream, hText, unread_message reads hMessage hStream, List.nil_append]

/-- What `run_together` sends is what `process` gets. -/
theorem serveLoop_requestMessage (rj : Rapidjson) (tasks : List Task)
    {reads : List (RecvBuf × Chunk)} (h : streamOf reads = requestMessage rj tasks) :
    serveLoop [] reads =
      some (cstr (rj.write (.object [(lit "tasks", .array (tasks.map Task.serializeRequest))])),
        []) :=
  serveLoop_message (nul_notMem_cstr _) h

theorem receiveLoop_text (buf : RecvBuf) {chunks : List Chunk}
    (h : (0 : UInt8) ∉ chunks.flatMap Chunk.bytes) :
    receiveLoop buf [] chunks = some (chunks.flatMap Chunk.bytes) := by
  have hText : ∀ chunk ∈ chunks, cstr chunk.bytes = chunk.bytes := by
    intro chunk hMem
    exact cstr_of_nul_free fun hNul => h (List.mem_flatMap.mpr ⟨chunk, hMem, hNul⟩)
  rw [receiveLoop_eq, List.nil_append, List.flatMap_def, List.flatMap_def,
    List.map_congr_left hText]

/-- **Message framing.** However the stream is cut into chunks and whatever the buffers held,
the daemon gets the longest prefix without a NUL and reads up to the first chunk with one; so
it gets a message as it was sent, and the client a response. -/
theorem framing_of_chunks :
    (∀ reads : List (RecvBuf × Chunk), ∃ request,
      serveLoop [] reads = some (request, unread reads) ∧
        LongestNulFree (streamOf reads) request) ∧
    (∀ (message : Str) (reads : List (RecvBuf × Chunk)), (0 : UInt8) ∉ message →
      streamOf reads = message ++ [0] → serveLoop [] reads = some (message, [])) ∧
    (∀ (response : Str) (buf : RecvBuf) (chunks : List Chunk), (0 : UInt8) ∉ response →
      chunks.flatMap Chunk.bytes = response → receiveLoop buf [] chunks = some response) := by
  refine ⟨?_, ?_, ?_⟩
  · intro reads
    exact ⟨cstr (streamOf reads), serveLoop_eq reads [], longestNulFree_cstr _⟩
  · intro message reads hMessage hStream
    exact serveLoop_message hMessage hStream
  · intro response buf chunks hResponse hChunks
    rw [← hChunks] at hResponse ⊢
    exact receiveLoop_text buf hResponse

theorem framing_of_chunks_cut :
    serveLoop [] [(Vector.replicate 1024 7, ⟨lit "\x7b", by decide, by decide⟩),
      (Vector.replicate 1024 0, ⟨lit "\x7d" ++ [0], by decide, by decide⟩)] =
        some (lit "\x7b\x7d", []) :=
  framing_of_chunks.2.1 _ _ (by decide) (by decide)

end Libsbox
