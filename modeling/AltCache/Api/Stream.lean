import AltCache.Api.Grpc

/-!
# A snapshot stream that is being sent

A task of the server sends the chunks of the captured snapshot through a channel with room for
two; the response is polled at its own pace, and the client may hang up at any point. The task
waits only for room, so its wait points are the chunks. Until the client hangs up, what was
received, what is in the channel and what the task has still to send are the chunks of the
snapshot.
-/

namespace AltCache

/-- The number of chunks that may wait to be polled. -/
def chunkChannelCapacity : ℕ := 2

/-- Where the task that sends a snapshot waits. -/
inductive StreamTask where
  /-- Room for a chunk before more entries. -/
  | sending (chunk : SnapshotChunk) (entries : List (Key × Account))
  /-- Room for what was left at the end. -/
  | sendingLast (chunk : SnapshotChunk)
  | returned

/-- A stream: its task, the channel, and whether the client has hung up. -/
structure SnapshotStream where
  task : StreamTask
  channel : List SnapshotChunk
  receiverDropped : Bool

/-- Whatever a stream can wake up on. -/
inductive StreamInput where
  /-- The channel has room, or nobody receives from it any more. -/
  | sendable
  | polled
  | hungUp
  deriving DecidableEq

/-- What a stream answers when it is polled. -/
inductive Polled where
  | pending
  | chunk (chunk : SnapshotChunk)
  | ended
  deriving DecidableEq

/-- Take entries into a chunk, up to the next wait point. -/
def collect (encodedLen : SnapshotChunk → ℕ) (chunk : SnapshotChunk) :
    List (Key × Account) → StreamTask
  | [] => if chunk.accounts ≠ [] ∨ chunk.totalAccounts = 0 then .sendingLast chunk else .returned
  | entry :: entries =>
    let chunk := { chunk with accounts := chunk.accounts ++ [.ofEntry entry] }
    if targetChunkBytes ≤ encodedLen chunk then .sending chunk entries
    else collect encodedLen chunk entries

namespace SnapshotStream

/-- `stream_snapshot`: spawn the task for a captured snapshot. -/
def spawn (encodedLen : SnapshotChunk → ℕ) (snapshot : ReadSnapshot) : SnapshotStream where
  task := collect encodedLen ⟨snapshot.slot, snapshot.accounts.size, []⟩ snapshot.accounts.toList
  channel := []
  receiverDropped := false

/-- Send a chunk if the channel has room, and go on. -/
def send (stream : SnapshotStream) (chunk : SnapshotChunk) (next : StreamTask) :
    SnapshotStream :=
  if stream.receiverDropped then { stream with task := .returned }
  else if stream.channel.length < chunkChannelCapacity then
    { stream with task := next, channel := stream.channel ++ [chunk] }
  else stream

/-- What the client gets from a poll. -/
def poll (stream : SnapshotStream) : Polled :=
  match stream.channel, stream.task with
  | chunk :: _, _ => .chunk chunk
  | [], .returned => .ended
  | [], _ => .pending

/-- Wake up once. -/
def step (encodedLen : SnapshotChunk → ℕ) (stream : SnapshotStream) :
    StreamInput → SnapshotStream
  | .sendable =>
    match stream.task with
    | .sending chunk entries =>
      stream.send chunk (collect encodedLen { chunk with accounts := [] } entries)
    | .sendingLast chunk => stream.send chunk .returned
    | .returned => stream
  | .polled => { stream with channel := stream.channel.tail }
  | .hungUp => { stream with channel := [], receiverDropped := true }

/-- Wake up on a list of inputs. -/
def run (encodedLen : SnapshotChunk → ℕ) (stream : SnapshotStream) (inputs : List StreamInput) :
    SnapshotStream :=
  inputs.foldl (step encodedLen) stream

/-- The chunk that the client gets from a wake-up, if any. -/
def output (stream : SnapshotStream) : StreamInput → Option SnapshotChunk
  | .polled => stream.channel.head?
  | _ => none

end SnapshotStream

/-- The chunks that a task has still to send. -/
def StreamTask.remaining (encodedLen : SnapshotChunk → ℕ) : StreamTask → List SnapshotChunk
  | .sending chunk entries => chunk :: sendChunks encodedLen { chunk with accounts := [] } entries
  | .sendingLast chunk => [chunk]
  | .returned => []

/-- A task sends the chunks of its entries. -/
theorem remaining_collect (encodedLen : SnapshotChunk → ℕ) (chunk : SnapshotChunk)
    (entries : List (Key × Account)) :
    (collect encodedLen chunk entries).remaining encodedLen =
      sendChunks encodedLen chunk entries := by
  induction entries generalizing chunk with
  | nil =>
    unfold collect sendChunks
    split
    · rfl
    · rfl
  | cons entry entries ih =>
    unfold collect sendChunks
    dsimp only
    split
    · rfl
    · exact ih _

namespace SnapshotStream

variable {encodedLen : SnapshotChunk → ℕ} {chunks received : List SnapshotChunk}
  {stream : SnapshotStream}

/-- A stream of some chunks, of which some were received. -/
structure Sends (encodedLen : SnapshotChunk → ℕ) (chunks received : List SnapshotChunk)
    (stream : SnapshotStream) : Prop where
  room : stream.channel.length ≤ chunkChannelCapacity
  inOrder : received <+: chunks
  whole : stream.receiverDropped = false →
    received ++ stream.channel ++ stream.task.remaining encodedLen = chunks
  hungUp : stream.receiverDropped = true → stream.channel = []

/-- A stream begins with all chunks to send. -/
theorem sends_spawn (encodedLen : SnapshotChunk → ℕ) (snapshot : ReadSnapshot) :
    (spawn encodedLen snapshot).Sends encodedLen (snapshotChunks encodedLen snapshot) [] where
  room := Nat.zero_le _
  inOrder := List.nil_prefix
  whole _ := remaining_collect ..
  hungUp h := absurd h Bool.false_ne_true

/-- Sending the next chunk. -/
theorem Sends.send (h : stream.Sends encodedLen chunks received) {chunk : SnapshotChunk}
    {next : StreamTask}
    (hremaining : stream.task.remaining encodedLen = chunk :: next.remaining encodedLen) :
    (stream.send chunk next).Sends encodedLen chunks received := by
  unfold SnapshotStream.send
  split
  · next hdropped =>
    exact ⟨h.room, h.inOrder, fun hopen => absurd (hdropped.symm.trans hopen) (by decide),
      h.hungUp⟩
  · next hopen =>
    split
    · next hroom =>
      refine ⟨?_, h.inOrder, fun hnot => ?_, fun hdropped => absurd hdropped hopen⟩
      · rw [List.length_append]
        exact hroom
      · have hwhole := h.whole hnot
        rw [hremaining] at hwhole
        simpa using hwhole
    · exact h

/-- A wake-up: what the client gets is the next chunk. -/
theorem Sends.step (h : stream.Sends encodedLen chunks received) (input : StreamInput) :
    (stream.step encodedLen input).Sends encodedLen chunks
      (received ++ (stream.output input).toList) := by
  cases input with
  | sendable =>
    simp only [output, Option.toList_none, List.append_nil]
    cases htask : stream.task with
    | sending chunk entries =>
      simp only [SnapshotStream.step, htask]
      apply h.send
      rw [htask, remaining_collect]
      rfl
    | sendingLast chunk =>
      simp only [SnapshotStream.step, htask]
      apply h.send
      rw [htask]
      rfl
    | returned =>
      simp only [SnapshotStream.step, htask]
      exact h
  | polled =>
    cases hchannel : stream.channel with
    | nil =>
      have hsame : stream.step encodedLen .polled = stream := by
        simp only [SnapshotStream.step, hchannel, List.tail_nil]
        rw [← hchannel]
      rw [hsame, output, hchannel, List.head?_nil, Option.toList_none, List.append_nil]
      exact h
    | cons chunk channel =>
      -- a client that has hung up finds nothing in the channel
      have hopen : stream.receiverDropped = false := by
        cases hdropped : stream.receiverDropped with
        | false => rfl
        | true => exact absurd (h.hungUp hdropped) (by simp [hchannel])
      have hwhole := h.whole hopen
      have hroom := h.room
      rw [hchannel] at hwhole hroom
      simp only [SnapshotStream.step, output, hchannel, List.tail_cons, List.head?_cons,
        Option.toList_some]
      refine ⟨(Nat.le_succ _).trans hroom, ?_, fun _ => ?_, fun hdropped => ?_⟩
      · exact ⟨channel ++ stream.task.remaining encodedLen, by simpa using hwhole⟩
      · simpa using hwhole
      · exact absurd (hopen.symm.trans hdropped) Bool.false_ne_true
  | hungUp =>
    simp only [output, Option.toList_none, List.append_nil]
    exact ⟨Nat.zero_le _, h.inOrder, fun hopen => absurd hopen (by simp [SnapshotStream.step]),
      fun _ => rfl⟩

/-- A task that has nothing to send has returned. -/
theorem remaining_eq_nil (encodedLen : SnapshotChunk → ℕ) {task : StreamTask} :
    task.remaining encodedLen = [] ↔ task = .returned := by
  cases task with
  | sending chunk entries => simp [StreamTask.remaining]
  | sendingLast chunk => simp [StreamTask.remaining]
  | returned => simp [StreamTask.remaining]

/-- A stream has ended when its channel is empty and its task has returned. -/
theorem poll_eq_ended : stream.poll = .ended ↔ stream.channel = [] ∧ stream.task = .returned := by
  unfold poll
  cases stream.channel with
  | cons chunk channel => simp
  | nil =>
    cases stream.task with
    | sending chunk entries => simp
    | sendingLast chunk => simp
    | returned => simp

/-- A stream ends exactly when it was received as a whole. -/
theorem Sends.ended_iff (h : stream.Sends encodedLen chunks received)
    (hopen : stream.receiverDropped = false) : stream.poll = .ended ↔ received = chunks := by
  have hwhole := h.whole hopen
  rw [List.append_assoc] at hwhole
  rw [poll_eq_ended, ← remaining_eq_nil encodedLen, ← List.append_eq_nil_iff]
  constructor
  · intro hnone
    rwa [hnone, List.append_nil] at hwhole
  · intro hall
    rw [hall] at hwhole
    exact List.append_right_eq_self.mp hwhole

/-- A client that does not hang up can read the stream to its end: every chunk takes at most two
wake-ups. -/
theorem ends_within (h : stream.Sends encodedLen chunks received)
    (hopen : stream.receiverDropped = false) :
    ∃ inputs : List StreamInput,
      inputs.length ≤ stream.channel.length + 2 * (stream.task.remaining encodedLen).length ∧
      .hungUp ∉ inputs ∧ (stream.run encodedLen inputs).poll = .ended := by
  generalize hsize : stream.channel.length + 2 * (stream.task.remaining encodedLen).length = size
  induction size using Nat.strong_induction_on generalizing stream received with
  | h size ih =>
    -- one wake-up that brings the end nearer
    have hnext {input : StreamInput} (hreads : .hungUp ≠ input)
        (hstill : (stream.step encodedLen input).receiverDropped = false)
        (hless : (stream.step encodedLen input).channel.length +
          2 * ((stream.step encodedLen input).task.remaining encodedLen).length < size) :
        ∃ inputs : List StreamInput, inputs.length ≤ size ∧ .hungUp ∉ inputs ∧
          (stream.run encodedLen inputs).poll = .ended := by
      obtain ⟨inputs, hlength, hall, hended⟩ := ih _ hless (h.step input) hstill rfl
      refine ⟨input :: inputs, ?_, ?_, hended⟩
      · rw [List.length_cons]
        omega
      · exact List.not_mem_cons_of_ne_of_not_mem hreads hall
    cases hchannel : stream.channel with
    | cons chunk channel =>
      apply hnext (show .hungUp ≠ StreamInput.polled by decide)
      · exact hopen
      · rw [hchannel, List.length_cons] at hsize
        simp only [SnapshotStream.step, hchannel, List.tail_cons]
        omega
    | nil =>
      have hroom : stream.channel.length < chunkChannelCapacity := by
        rw [hchannel]
        decide
      have hsent (chunk : SnapshotChunk) (next : StreamTask) : stream.send chunk next =
          { stream with task := next, channel := stream.channel ++ [chunk] } := by
        rw [SnapshotStream.send, if_neg (by simp [hopen]), if_pos hroom]
      rw [hchannel, List.length_nil, Nat.zero_add] at hsize
      cases htask : stream.task with
      | sending chunk entries =>
        rw [htask, StreamTask.remaining, List.length_cons] at hsize
        apply hnext (show .hungUp ≠ StreamInput.sendable by decide)
        · simp only [SnapshotStream.step, htask, hsent, hopen]
        · simp only [SnapshotStream.step, htask, hsent, hchannel, remaining_collect]
          simp only [List.nil_append, List.length_singleton]
          omega
      | sendingLast chunk =>
        rw [htask, StreamTask.remaining, List.length_singleton] at hsize
        apply hnext (show .hungUp ≠ StreamInput.sendable by decide)
        · simp only [SnapshotStream.step, htask, hsent, hopen]
        · simp only [SnapshotStream.step, htask, hsent, hchannel, StreamTask.remaining]
          simp only [List.nil_append, List.length_singleton, List.length_nil]
          omega
      | returned =>
        refine ⟨[], Nat.zero_le _, List.not_mem_nil, ?_⟩
        change stream.poll = .ended
        simp only [poll, hchannel, htask]

end SnapshotStream

end AltCache
