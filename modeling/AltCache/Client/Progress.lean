import AltCache.Client.Attempts

/-!
# The client never gets stuck

A client that has lost its session attempts its sources for ever, so wherever it is, one
accepted subscription and one complete snapshot are enough to serve again: at most four
wake-ups and the chunks of the snapshot lie before that. Only a panic ends the task for good: a
server that announces more accounts than a map can be allocated for.
-/

namespace AltCache

open AltCache.Replay (Buckets)

/-- Without buffered events the session is the snapshot. -/
theorem replayBuffered_nil (deserialize : Deserialize) (sourceIndex : ℕ) (snapshot : ℕ × Tables) :
    replayBuffered deserialize sourceIndex snapshot [] =
      .ok (Session.start sourceIndex snapshot.1 snapshot.2) := by
  have hslots : (∅ : Buckets SubscribeUpdateAccount).slotsThrough snapshot.1 = [] := by
    apply List.eq_nil_iff_forall_not_mem.mpr
    intro slot hslot
    have hmem := (Buckets.mem_slotsThrough.mp hslot).1
    exact Std.ExtTreeMap.not_mem_empty hmem
  unfold replayBuffered
  rw [Session.handleAll]
  dsimp only
  rw [Session.applyPendingThrough, Session.start]
  dsimp only
  rw [hslots]
  rfl

/-- A chunk that is taken announces the number of accounts that the download keeps. -/
theorem totalAccounts_push {deserialize : Deserialize} {download download' : SnapshotDownload}
    {chunk : SnapshotChunk} (hok : download.push deserialize chunk = .ok download') :
    download'.totalAccounts = some chunk.totalAccounts ∧
      ∀ count ∈ download.totalAccounts, count = chunk.totalAccounts := by
  unfold SnapshotDownload.push at hok
  dsimp only at hok
  split at hok
  · cases hok
  · split at hok
    · cases hok
    · next hcount =>
      split at hok
      · cases hok
      · obtain rfl := Except.ok.inj hok
        have hsame := (not_not.mp hcount).symm
        refine ⟨congrArg some hsame, fun count hheld => ?_⟩
        rwa [Option.mem_def.mp hheld] at hsame

/-- All chunks of a complete snapshot announce the number of its tables. -/
theorem totalAccounts_of_fetchSnapshot {deserialize : Deserialize} {chunks : List SnapshotChunk}
    {snapshot : CompletedSnapshot} (h : fetchSnapshot deserialize chunks = .ok snapshot)
    {chunk : SnapshotChunk} (hchunk : chunk ∈ chunks) :
    chunk.totalAccounts = snapshot.tables.size := by
  have hannounced {received : List SnapshotChunk} {download : SnapshotDownload}
      (hpush : SnapshotDownload.new.pushAll deserialize received = .ok download) :
      ∀ chunk ∈ received, download.totalAccounts = some chunk.totalAccounts := by
    induction received using List.reverseRecOn generalizing download with
    | nil => exact fun _ hmem => absurd hmem List.not_mem_nil
    | append_singleton received last ih =>
      unfold SnapshotDownload.pushAll at hpush ih
      rw [List.foldlM_append] at hpush
      cases hfirst : received.foldlM (SnapshotDownload.push deserialize) .new with
      | error error =>
        rw [hfirst] at hpush
        cases hpush
      | ok held =>
        rw [hfirst] at hpush
        change ([last].foldlM (SnapshotDownload.push deserialize) held : Except String _) = _
          at hpush
        rw [List.foldlM_cons] at hpush
        cases hlast : held.push deserialize last with
        | error error =>
          rw [hlast] at hpush
          cases hpush
        | ok taken =>
          rw [hlast] at hpush
          obtain rfl := Except.ok.inj hpush
          obtain ⟨htaken, hsame⟩ := totalAccounts_push hlast
          intro chunk hmem
          rcases List.mem_append.mp hmem with hmem | hmem
          · rw [htaken, hsame _ (Option.mem_def.mpr (ih hfirst chunk hmem))]
          · rw [htaken, List.mem_singleton.mp hmem]
  unfold fetchSnapshot at h
  cases hpush : SnapshotDownload.new.pushAll deserialize chunks with
  | error error =>
    rw [hpush] at h
    cases h
  | ok download =>
    rw [hpush] at h
    change download.finish = .ok snapshot at h
    have hcount := hannounced hpush chunk hchunk
    unfold SnapshotDownload.finish at h
    split at h
    · next slot expected tables _ hexpected _ =>
      dsimp only at h
      split at h
      · cases h
      · next hsize =>
        obtain rfl := Except.ok.inj h
        exact (Option.some.inj (hcount.symm.trans hexpected)).trans (not_not.mp hsize).symm
    · cases h

namespace Client

variable {deserialize : Deserialize} {allocates : ℕ → Bool} {config : AltConfig} {inner : Inner}
  {task : ClientTask} {wakeups more : ℕ} {snapshot : CompletedSnapshot}
  {chunks : List SnapshotChunk}

/-- The client may serve a snapshot after at most so many wake-ups, without being dropped. -/
def ServesWithin (deserialize : Deserialize) (allocates : ℕ → Bool) (config : AltConfig)
    (snapshot : CompletedSnapshot) (wakeups : ℕ) (client : Client) : Prop :=
  ∃ inputs sourceIndex, inputs.length ≤ wakeups ∧ .dropped ∉ inputs ∧
    client.run deserialize allocates config inputs =
      .running (.serving (.start sourceIndex snapshot.slot snapshot.tables))
        (.following (.start sourceIndex snapshot.slot snapshot.tables))

/-- Some wake-ups more. -/
theorem ServesWithin.after {client next : Client} {inputs : List ClientInput}
    (hrun : client.run deserialize allocates config inputs = next) (hdropped : .dropped ∉ inputs)
    (h : next.ServesWithin deserialize allocates config snapshot wakeups) :
    client.ServesWithin deserialize allocates config snapshot (inputs.length + wakeups) := by
  obtain ⟨rest, sourceIndex, hlength, hrest, hserves⟩ := h
  refine ⟨inputs ++ rest, sourceIndex, ?_, ?_, ?_⟩
  · rw [List.length_append]
    exact Nat.add_le_add_left hlength _
  · intro hmem
    rcases List.mem_append.mp hmem with hmem | hmem
    · exact hdropped hmem
    · exact hrest hmem
  · rw [run, List.foldl_append]
    exact (congrArg (run deserialize allocates config · rest) hrun).trans hserves

/-- More wake-ups than are needed. -/
theorem ServesWithin.mono {client : Client}
    (h : client.ServesWithin deserialize allocates config snapshot wakeups)
    (hmore : wakeups ≤ more) :
    client.ServesWithin deserialize allocates config snapshot more := by
  obtain ⟨inputs, sourceIndex, hlength, hdropped, hserves⟩ := h
  exact ⟨inputs, sourceIndex, hlength.trans hmore, hdropped, hserves⟩

/-- The chunks of a stream are downloaded one by one. -/
theorem run_chunks {startSource offset url : ℕ} {buffered : List BufferedEvent}
    {download completed : SnapshotDownload}
    (hroom : ∀ chunk ∈ chunks, allocates chunk.totalAccounts = true)
    (h : download.pushAll deserialize chunks = .ok completed) :
    (running inner (.recovering ⟨startSource, offset, .bootstrapping buffered url download⟩)).run
        deserialize allocates config (chunks.map .chunk) =
      .running inner (.recovering ⟨startSource, offset, .bootstrapping buffered url completed⟩) := by
  induction chunks generalizing download with
  | nil =>
    obtain rfl := Except.ok.inj h
    rfl
  | cons chunk chunks ih =>
    unfold SnapshotDownload.pushAll at h ih
    rw [List.foldlM_cons] at h
    cases hpush : download.push deserialize chunk with
    | error error =>
      rw [hpush] at h
      cases h
    | ok next =>
      rw [hpush] at h
      have hcalm : download.pushPanics allocates chunk = false := by
        simp [SnapshotDownload.pushPanics, hroom chunk List.mem_cons_self]
      rw [List.map_cons, run, List.foldl_cons]
      simp only [step, taskStep, EstablishCall.step, EstablishCall.bootstrapStep, hcalm,
        Bool.false_eq_true, if_false, hpush, ofLater]
      exact ih (fun other hother => hroom other (List.mem_cons_of_mem _ hother)) h

/-- A complete download that ends is served. -/
theorem serves_ended {startSource offset url : ℕ} {completed : SnapshotDownload}
    (hfinish : completed.finish = .ok snapshot) :
    (running inner (.recovering ⟨startSource, offset,
      .bootstrapping [] url completed⟩)).ServesWithin deserialize allocates config snapshot 1 := by
  refine ⟨[.snapshotEnded], EstablishCall.sourceIndex config ⟨startSource, offset,
    .bootstrapping [] url completed⟩, le_rfl, by simp, ?_⟩
  change ofLater inner startSource (EstablishCall.bootstrapStep deserialize allocates config
    ⟨startSource, offset, .bootstrapping [] url completed⟩ [] url completed .snapshotEnded) = _
  simp only [EstablishCall.bootstrapStep, hfinish, EstablishCall.finishBootstrap,
    replayBuffered_nil, ofLater]

/-- A download that begins is served with the next complete snapshot. -/
theorem serves_downloading {startSource offset url : ℕ}
    (hsnapshot : fetchSnapshot deserialize chunks = .ok snapshot)
    (hroom : allocates snapshot.tables.size = true) :
    (running inner (.recovering ⟨startSource, offset, .bootstrapping [] url .new⟩)).ServesWithin
      deserialize allocates config snapshot (chunks.length + 1) := by
  have hfetched := hsnapshot
  unfold fetchSnapshot at hsnapshot
  cases hpushed : SnapshotDownload.new.pushAll deserialize chunks with
  | error error =>
    rw [hpushed] at hsnapshot
    cases hsnapshot
  | ok completed =>
    rw [hpushed] at hsnapshot
    have hchunks : (running inner (.recovering ⟨startSource, offset,
        .bootstrapping [] url .new⟩)).run deserialize allocates config (chunks.map .chunk) =
          .running inner (.recovering ⟨startSource, offset, .bootstrapping [] url completed⟩) :=
      run_chunks (fun chunk hchunk => by rwa [totalAccounts_of_fetchSnapshot hfetched hchunk])
        hpushed
    have hserves := ServesWithin.after hchunks (by simp) (serves_ended hsnapshot)
    rwa [List.length_map] at hserves

/-- So is an attempt that connects, -/
theorem serves_connecting {startSource offset : ℕ} (hservers : 0 < config.snapshotGrpc.length)
    (hsnapshot : fetchSnapshot deserialize chunks = .ok snapshot)
    (hroom : allocates snapshot.tables.size = true) :
    (running inner (.recovering ⟨startSource, offset, .connecting⟩)).ServesWithin deserialize
      allocates config snapshot (chunks.length + 2) := by
  have hsubscribed : (running inner (.recovering ⟨startSource, offset, .connecting⟩)).run
      deserialize allocates config [.subscribed] = .running inner
        (.recovering ⟨startSource, offset, .bootstrapping [] 0 .new⟩) := by
    change ofLater inner startSource (EstablishCall.fetchFrom config
      ⟨startSource, offset, .connecting⟩ [] 0 _) = _
    rw [EstablishCall.fetchFrom, if_pos hservers]
    rfl
  have hserves := ServesWithin.after hsubscribed (by simp) (serves_downloading hsnapshot hroom)
  exact hserves.mono (by rw [List.length_singleton]; omega)

/-- a client whose delay is over, -/
theorem serves_delaying {nextSource : ℕ} (hvalid : config.Valid)
    (hsnapshot : fetchSnapshot deserialize chunks = .ok snapshot)
    (hroom : allocates snapshot.tables.size = true) :
    (running inner (.delaying nextSource)).ServesWithin deserialize allocates config snapshot
      (chunks.length + 3) := by
  have helapsed :
      (running inner (.delaying nextSource)).run deserialize allocates config [.elapsed] =
        .running inner (.recovering ⟨nextSource, 0, .connecting⟩) := by
    change ofLater inner nextSource (EstablishCall.attemptAt config nextSource 0 _) = _
    rw [EstablishCall.attemptAt, if_pos (List.length_pos_iff.mpr hvalid.yellowstoneGrpc)]
    rfl
  have hservers := List.length_pos_iff.mpr hvalid.snapshotGrpc
  have hserves := ServesWithin.after helapsed (by simp) (serves_connecting hservers hsnapshot hroom)
  exact hserves.mono (by rw [List.length_singleton]; omega)

/-- and one whose attempt fails. -/
theorem serves_recovering (hvalid : config.Valid) (call : EstablishCall)
    (hsnapshot : fetchSnapshot deserialize chunks = .ok snapshot)
    (hroom : allocates snapshot.tables.size = true) :
    (running inner (.recovering call)).ServesWithin deserialize allocates config snapshot
      (chunks.length + 4) := by
  have hfailed :
      (running inner (.recovering call)).run deserialize allocates config [.sourceFailed ""] =
        ofLater inner call.startSource (call.attemptFailed config "") := by
    change ofLater inner call.startSource
      (call.step deserialize allocates config (.sourceFailed "")) = _
    unfold EstablishCall.step
    split <;> rfl
  have hservers := List.length_pos_iff.mpr hvalid.snapshotGrpc
  rcases call.attemptFailed_cases config "" with ⟨-, heq⟩ | ⟨-, heq⟩
  · rw [heq] at hfailed
    have hserves := ServesWithin.after hfailed (by simp)
      (serves_connecting hservers hsnapshot hroom)
    exact hserves.mono (by rw [List.length_singleton]; omega)
  · rw [heq] at hfailed
    have hserves := ServesWithin.after hfailed (by simp) (serves_delaying hvalid hsnapshot hroom)
    exact hserves.mono (by rw [List.length_singleton]; omega)

/-- A refusal is final. -/
theorem run_refused (error : String) (inputs : List ClientInput) :
    (refused error).run deserialize allocates config inputs = .refused error := by
  induction inputs using List.reverseRecOn with
  | nil => rfl
  | append_singleton inputs input ih =>
    rw [run_concat, ih]
    rfl

/-- A client that runs was given a valid configuration. -/
theorem valid_of_running {inputs : List ClientInput}
    (h : (connect config).run deserialize allocates config inputs = .running inner task) :
    config.Valid := by
  cases hcheck : config.check with
  | ok => exact AltConfig.check_iff.mp hcheck
  | error error =>
    rw [connect, hcheck, run_refused] at h
    cases h

/-- The source of the small run fails at the end. -/
def failedRun : List ClientInput := smallRun ++ [.sourceFailed "stream ended"]

/-- With the first chunk of a server that announces too many accounts the task is over. -/
example : ((connect smallConfig).run acceptAll roomy smallConfig
    (failedRun ++ [.elapsed, .subscribed, .chunk ⟨7, 2 ^ 62, []⟩, .elapsed, .subscribed,
      .chunk ⟨8, 0, []⟩, .snapshotEnded])).inner?.map Inner.ready = some false := by
  decide +kernel

end Client

end AltCache
