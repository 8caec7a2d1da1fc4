import AltCache.Client.Readers
import AltCache.Rotation

/-!
# The order in which sources are attempted

Every failed attempt is reported with its source. After a session is lost the attempts go
round the sources, beginning with the one after the lost session's and coming to that one
last; a round that fails is followed by another in the same order. So the search for a new
session is over after fewer failures than steps lead to any source that can be reached.
-/

namespace AltCache

variable {deserialize : Deserialize} {allocates : ℕ → Bool} {config : AltConfig}
  {client : Client} {inputs : List ClientInput} {position : ℕ}

/-- What `connect` requires of its configuration. -/
structure AltConfig.Valid (config : AltConfig) : Prop where
  snapshotGrpc : config.snapshotGrpc ≠ []
  yellowstoneGrpc : config.yellowstoneGrpc ≠ []
  snapshotUrls : config.snapshotGrpc.Nodup ∧ "" ∉ config.snapshotGrpc
  yellowstoneUrls : (config.yellowstoneGrpc.map YellowstoneGrpcConfig.url).Nodup ∧
    "" ∉ config.yellowstoneGrpc.map YellowstoneGrpcConfig.url

/-- The URLs pass exactly if they are distinct and none is empty or was seen. -/
theorem freshUrls_iff {seen urls : List String} :
    freshUrls seen urls ↔ urls.Nodup ∧ "" ∉ urls ∧ ∀ url ∈ urls, url ∉ seen := by
  induction urls generalizing seen with
  | nil => simp [freshUrls]
  | cons url urls ih =>
    simp only [freshUrls, Bool.and_eq_true, decide_eq_true_eq, ih, List.nodup_cons,
      List.mem_cons, not_or]
    constructor
    · rintro ⟨⟨hsome, hunseen⟩, hnodup, hrest, hfresh⟩
      refine ⟨⟨fun hmem => (hfresh url hmem).1 rfl, hnodup⟩, ⟨Ne.symm hsome, hrest⟩, ?_⟩
      rintro other (rfl | hother)
      · exact hunseen
      · exact (hfresh other hother).2
    · rintro ⟨⟨hnotmem, hnodup⟩, ⟨hsome, hrest⟩, hfresh⟩
      exact ⟨⟨Ne.symm hsome, hfresh url (Or.inl rfl)⟩, hnodup, hrest, fun other hother =>
        ⟨fun heq => hnotmem (heq ▸ hother), hfresh other (Or.inr hother)⟩⟩

/-- The checks of `connect` pass exactly if the configuration is valid. -/
theorem AltConfig.check_iff : config.check = .ok () ↔ config.Valid := by
  have hfresh (urls : List String) : freshUrls [] urls ↔ urls.Nodup ∧ "" ∉ urls := by
    simp [freshUrls_iff]
  unfold check
  simp only [List.length_eq_zero_iff, hfresh]
  constructor
  · intro h
    split_ifs at h with hservers hsources hsnapshot hyellowstone
    exact ⟨hservers, hsources, hsnapshot, hyellowstone⟩
  · rintro ⟨hservers, hsources, hsnapshot, hyellowstone⟩
    rw [if_neg hservers, if_neg hsources, if_neg (not_not.mpr hsnapshot),
      if_neg (not_not.mpr hyellowstone)]

/-- The source whose attempt a wake-up of `establish_session` reports as unavailable. -/
def EstablishCall.unavailable (deserialize : Deserialize) (allocates : ℕ → Bool)
    (config : AltConfig) (call : EstablishCall) (input : ClientInput) : Option ℕ :=
  match call.step deserialize allocates config input with
  | .going next => if next.offset = call.offset then none else some (call.sourceIndex config)
  | .established _ => none
  | .failed _ => some (call.sourceIndex config)
  | .panicked => none

namespace Client

/-- The source that a wake-up of the client reports as unavailable. -/
def unavailable (deserialize : Deserialize) (allocates : ℕ → Bool) (config : AltConfig)
    (client : Client) (input : ClientInput) : Option ℕ :=
  match client with
  | .connecting call => call.unavailable deserialize allocates config input
  | .running _ (.recovering call) =>
    match input with
    | .dropped => none
    | input => call.unavailable deserialize allocates config input
  | _ => none

/-- The sources reported as unavailable during a run. -/
def reports (deserialize : Deserialize) (allocates : ℕ → Bool) (config : AltConfig) :
    Client → List ClientInput → List ℕ
  | _, [] => []
  | client, input :: inputs =>
    (client.unavailable deserialize allocates config input).toList ++
      reports deserialize allocates config (client.step deserialize allocates config input) inputs

/-- The source whose turn it is, while the client searches for a session. -/
def turn (config : AltConfig) : Client → Option ℕ
  | .connecting call => some (call.sourceIndex config)
  | .running _ (.recovering call) => some (call.sourceIndex config)
  | .running _ (.delaying nextSource) => some (nextSource % config.yellowstoneGrpc.length)
  | _ => none

/-- The search has ended without a session. -/
def Ended : Client → Prop
  | .running _ .panicked => True
  | .refused _ => True
  | .panicked => True
  | .dropped => True
  | _ => False

/-- It is a source's turn, or it has had its turn with success, or the search has ended
without a session. -/
def Reached (config : AltConfig) (position : ℕ) (client : Client) : Prop :=
  client.turn config = some position ∨
    (∃ inner session, client = .running inner (.following session) ∧
      session.sourceIndex = position) ∨ client.Ended

/-- A search that has ended has no turn. -/
theorem Ended.turn_eq_none (h : client.Ended) : client.turn config = none := by
  cases client with
  | connecting call => exact h.elim
  | running inner task =>
    cases task with
    | panicked => rfl
    | _ => exact h.elim
  | _ => rfl

/-- Reports of a longer run. -/
theorem reports_concat (client : Client) (inputs : List ClientInput) (input : ClientInput) :
    client.reports deserialize allocates config (inputs ++ [input]) =
      client.reports deserialize allocates config inputs ++
        ((client.run deserialize allocates config inputs).unavailable deserialize allocates config
          input).toList := by
  induction inputs generalizing client with
  | nil => simp [reports, run]
  | cons first inputs ih =>
    rw [List.cons_append, reports, reports, ih, List.append_assoc]
    rfl

end Client

/-- A call of `establish_session` stays with its source, or panics, or reports it and goes on with
the next one; the source of a session it establishes had its turn. -/
theorem EstablishCall.turn_step (deserialize : Deserialize) (allocates : ℕ → Bool)
    (config : AltConfig) (call : EstablishCall) (input : ClientInput) :
    (call.unavailable deserialize allocates config input = none ∧
      ((∃ next, call.step deserialize allocates config input = .going next ∧
          next.startSource = call.startSource ∧ next.offset = call.offset) ∨
        (∃ session, call.step deserialize allocates config input = .established session ∧
          session.sourceIndex = call.sourceIndex config) ∨
        call.step deserialize allocates config input = .panicked)) ∨
    (call.unavailable deserialize allocates config input = some (call.sourceIndex config) ∧
      ((∃ next, call.step deserialize allocates config input = .going next ∧
          next.startSource = call.startSource ∧ next.offset = call.offset + 1) ∨
        ∃ error, call.step deserialize allocates config input = .failed error ∧
          config.yellowstoneGrpc.length ≤ call.offset + 1)) := by
  have htried := tried_step deserialize allocates config call input
  unfold unavailable
  generalize call.step deserialize allocates config input = outcome at htried
  cases htried with
  | passed => exact Or.inl ⟨by simp, Or.inl ⟨_, rfl, rfl, rfl⟩⟩
  | failed error =>
    rcases call.attemptFailed_cases config error with ⟨-, heq⟩ | ⟨hlast, heq⟩
    · rw [heq]
      exact Or.inr ⟨by simp, Or.inl ⟨_, rfl, rfl, rfl⟩⟩
    · rw [heq]
      exact Or.inr ⟨rfl, Or.inr ⟨error, rfl, hlast⟩⟩
  | subscribed => exact Or.inl ⟨by simp, Or.inl ⟨_, rfl, rfl, rfl⟩⟩
  | buffered => exact Or.inl ⟨by simp, Or.inl ⟨_, rfl, rfl, rfl⟩⟩
  | received => exact Or.inl ⟨by simp, Or.inl ⟨_, rfl, rfl, rfl⟩⟩
  | nextUrl => exact Or.inl ⟨by simp, Or.inl ⟨_, rfl, rfl, rfl⟩⟩
  | panicked => exact Or.inl ⟨rfl, Or.inr (Or.inr rfl)⟩
  | established _ _ hok =>
    exact Or.inl ⟨rfl, Or.inr (Or.inl ⟨_, rfl, (Session.onward_replayBuffered hok).sourceIndex⟩)⟩

/-- The turn passes to the next source. -/
theorem EstablishCall.sourceIndex_next {call next : EstablishCall}
    (hstart : next.startSource = call.startSource) (hoffset : next.offset = call.offset + 1) :
    next.sourceIndex config = (call.sourceIndex config + 1) % config.yellowstoneGrpc.length := by
  unfold sourceIndex
  rw [hstart, hoffset, Nat.mod_add_mod, Nat.add_assoc]

namespace Client

/-- The offsets of a client's attempts are below the number of sources. -/
def InRange (config : AltConfig) : Client → Prop
  | .connecting call => call.offset < config.yellowstoneGrpc.length
  | .running _ (.recovering call) => call.offset < config.yellowstoneGrpc.length
  | _ => True

/-- What becomes of a client whose call of `establish_session` wakes up: the turn stays with the
source, or the source is reported and the next one has the turn. -/
theorem reached_call (deserialize : Deserialize) {call : EstablishCall}
    {become : Establish → Client}
    (hgoing : ∀ next : EstablishCall,
      (become (.going next)).turn config = some (next.sourceIndex config))
    (hestablished : ∀ session, ∃ inner, become (.established session) =
      .running inner (.following session))
    (hfailed : ∀ error, config.yellowstoneGrpc.length ≤ call.offset + 1 →
      (become (.failed error)).Reached config
        ((call.sourceIndex config + 1) % config.yellowstoneGrpc.length))
    (hpanicked : (become .panicked).Ended)
    (input : ClientInput) :
    (call.unavailable deserialize allocates config input = none ∧
      (become (call.step deserialize allocates config input)).Reached config
        (call.sourceIndex config)) ∨
    (call.unavailable deserialize allocates config input = some (call.sourceIndex config) ∧
      (become (call.step deserialize allocates config input)).Reached config
        ((call.sourceIndex config + 1) % config.yellowstoneGrpc.length)) := by
  rcases call.turn_step deserialize allocates config input with
    ⟨hnone, ⟨next, heq, hstart, hoffset⟩ | ⟨session, heq, hsource⟩ | heq⟩ |
    ⟨hsome, ⟨next, heq, hstart, hoffset⟩ | ⟨error, heq, hlast⟩⟩
  · refine Or.inl ⟨hnone, Or.inl ?_⟩
    rw [heq, hgoing, EstablishCall.sourceIndex, hstart, hoffset]
    rfl
  · refine Or.inl ⟨hnone, Or.inr (Or.inl ?_)⟩
    obtain ⟨inner, hrunning⟩ := hestablished session
    rw [heq, hrunning]
    exact ⟨inner, session, rfl, hsource⟩
  · refine Or.inl ⟨hnone, Or.inr (Or.inr ?_)⟩
    rw [heq]
    exact hpanicked
  · refine Or.inr ⟨hsome, Or.inl ?_⟩
    rw [heq, hgoing, EstablishCall.sourceIndex_next hstart hoffset]
  · refine Or.inr ⟨hsome, ?_⟩
    rw [heq]
    exact hfailed error hlast

/-- One wake-up of a search leaves the turn with its source, or reports it and passes the turn to
the next. -/
theorem reached_step (deserialize : Deserialize) (hrange : client.InRange config)
    (hturn : client.turn config = some position) (input : ClientInput) :
    (client.unavailable deserialize allocates config input = none ∧
      (client.step deserialize allocates config input).Reached config position) ∨
    (client.unavailable deserialize allocates config input = some position ∧
      (client.step deserialize allocates config input).Reached config
        ((position + 1) % config.yellowstoneGrpc.length)) := by
  cases client with
  | refused error => cases hturn
  | panicked => cases hturn
  | dropped => cases hturn
  | connecting call =>
    obtain rfl := Option.some.inj hturn
    simp only [unavailable, step]
    exact reached_call deserialize (fun _ => rfl) (fun session => ⟨.serving session, rfl⟩)
      (fun error _ => Or.inr (Or.inr (by trivial))) (by trivial) input
  | running inner task =>
    cases task with
    | following session => cases hturn
    | panicked => cases hturn
    | delaying nextSource =>
      obtain rfl := Option.some.inj hturn
      refine Or.inl ⟨rfl, ?_⟩
      cases input with
      | dropped => exact Or.inr (Or.inr trivial)
      | elapsed =>
        left
        simp only [step, taskStep, EstablishCall.start, EstablishCall.attemptAt]
        split
        · rfl
        · rfl
      | _ => exact Or.inl rfl
    | recovering call =>
      obtain rfl := Option.some.inj hturn
      cases hinput : input with
      | dropped => exact Or.inl ⟨rfl, Or.inr (Or.inr trivial)⟩
      | _ =>
        simp only [unavailable, step, taskStep]
        rw [← hinput]
        refine reached_call deserialize (fun _ => rfl) (fun session => ⟨.serving session, rfl⟩)
          (fun error hlast => Or.inl ?_) (by trivial) input
        -- after the last source the next call begins with the first one again
        have hoffset : call.offset + 1 = config.yellowstoneGrpc.length := hlast.antisymm' hrange
        simp only [ofLater, turn, EstablishCall.sourceIndex]
        rw [Nat.mod_add_mod, Nat.add_assoc, hoffset, Nat.add_mod_right]

/-- In a run the offsets are in range. -/
theorem inRange_run (deserialize : Deserialize) (allocates : ℕ → Bool) (config : AltConfig)
    (inputs : List ClientInput) :
    ((connect config).run deserialize allocates config inputs).InRange config := by
  have hlived := lived_run deserialize allocates config inputs
  generalize (connect config).run deserialize allocates config inputs = client at hlived
  cases client with
  | connecting call => exact hlived.1
  | running inner task =>
    cases task with
    | recovering call => exact hlived.2.1
    | _ => trivial
  | _ => trivial

/-- As long as a search goes on, the reported sources are those that had their turn, in order,
and the turn is with the next one. -/
theorem reached_run
    (hrange : ∀ first, (client.run deserialize allocates config first).InRange config)
    (hturn : client.turn config = some position)
    (hposition : position < config.yellowstoneGrpc.length)
    (hsearching : ∀ first, first <+: inputs → first ≠ inputs →
      (client.run deserialize allocates config first).turn config ≠ none) :
    client.reports deserialize allocates config inputs =
        (List.range (client.reports deserialize allocates config inputs).length).map
          (fun i => (position + i) % config.yellowstoneGrpc.length) ∧
      (client.run deserialize allocates config inputs).Reached config
        ((position + (client.reports deserialize allocates config inputs).length) %
          config.yellowstoneGrpc.length) := by
  induction inputs using List.reverseRecOn with
  | nil => exact ⟨rfl, Or.inl (hturn.trans (congrArg some (Nat.mod_eq_of_lt hposition).symm))⟩
  | append_singleton inputs input ih =>
    obtain ⟨hreports, hreached⟩ := ih fun first hfirst hne =>
      hsearching first (hfirst.trans (List.prefix_append inputs [input]))
        fun heq => hne (hfirst.eq_of_length_le (by simp [heq]))
    -- the search was still going on before the last input
    have hgoing := hsearching inputs (List.prefix_append inputs [input]) (by simp)
    have hcurrent : (client.run deserialize allocates config inputs).turn config =
        some ((position + (client.reports deserialize allocates config inputs).length) %
          config.yellowstoneGrpc.length) := by
      rcases hreached with hturn | ⟨inner, session, heq, -⟩ | hended
      · exact hturn
      · exact absurd (by rw [heq]; rfl) hgoing
      · exact absurd hended.turn_eq_none hgoing
    rw [reports_concat, run_concat]
    rcases reached_step deserialize (hrange inputs) hcurrent input with
      ⟨hnone, hnext⟩ | ⟨hsome, hnext⟩
    · rw [hnone, Option.toList_none, List.append_nil]
      exact ⟨hreports, hnext⟩
    · rw [Nat.mod_add_mod] at hnext
      rw [hsome, Option.toList_some, List.length_append, List.length_singleton,
        List.range_succ, List.map_append, ← hreports, ← Nat.add_assoc]
      exact ⟨rfl, hnext⟩

/-- What the first `establish_session` has reported: the sources before the one whose turn it is,
and all of them when `connect` returns its error. -/
def FirstReports (config : AltConfig) (reported : List ℕ) : Client → Prop
  | .connecting call => call.startSource = 0 ∧ reported = List.range call.offset
  | .refused _ => reported = List.range config.yellowstoneGrpc.length
  | _ => True

/-- A running client keeps running until it is dropped. -/
theorem step_running (deserialize : Deserialize) (allocates : ℕ → Bool) (config : AltConfig)
    (inner : Inner) (task : ClientTask) (input : ClientInput) :
    (∃ inner' task', (running inner task).step deserialize allocates config input =
      .running inner' task') ∨
      (running inner task).step deserialize allocates config input = .dropped := by
  have hlater (inner : Inner) (nextSource : ℕ) (outcome : Establish) :
      ∃ inner' task', ofLater inner nextSource outcome = .running inner' task' := by
    cases outcome <;> exact ⟨_, _, rfl⟩
  cases hinput : input with
  | dropped => exact Or.inr rfl
  | _ =>
    left
    rw [← hinput]
    have htask : (running inner task).step deserialize allocates config input =
        taskStep deserialize allocates config inner input task := by
      rw [hinput]
      rfl
    rw [htask]
    cases task with
    | following session =>
      simp only [taskStep, hinput, followStep]
      first
        | exact ⟨_, _, rfl⟩
        | split <;> exact ⟨_, _, rfl⟩
    | delaying nextSource =>
      simp only [taskStep, hinput]
      first
        | exact ⟨_, _, rfl⟩
        | exact hlater ..
    | recovering call => exact hlater ..
    | panicked => exact ⟨_, _, rfl⟩

/-- One wake-up adds what it reports. -/
theorem FirstReports.step {reported : List ℕ} (hrange : client.InRange config)
    (h : client.FirstReports config reported) (input : ClientInput) :
    (client.step deserialize allocates config input).FirstReports config
      (reported ++ (client.unavailable deserialize allocates config input).toList) := by
  cases client with
  | dropped => trivial
  | panicked => trivial
  | refused error =>
    change reported ++ [] = _
    rwa [List.append_nil]
  | running inner task =>
    rcases step_running deserialize allocates config inner task input with
      ⟨inner', task', heq⟩ | heq <;> rw [heq] <;> trivial
  | connecting call =>
    obtain ⟨hstart, rfl⟩ := h
    have hoffset : call.offset < config.yellowstoneGrpc.length := hrange
    have hsource : call.sourceIndex config = call.offset := by
      rw [EstablishCall.sourceIndex, hstart, Nat.zero_add, Nat.mod_eq_of_lt hoffset]
    simp only [unavailable, Client.step]
    rcases call.turn_step deserialize allocates config input with
      ⟨hnone, ⟨next, heq, hstart', hoffset'⟩ | ⟨session, heq, -⟩ | heq⟩ |
      ⟨hsome, ⟨next, heq, hstart', hoffset'⟩ | ⟨error, heq, hlast⟩⟩
    · rw [heq, hnone]
      exact ⟨hstart'.trans hstart, by rw [hoffset']; exact List.append_nil _⟩
    · rw [heq]
      trivial
    · rw [heq]
      trivial
    · rw [heq, hsome, hsource]
      exact ⟨hstart'.trans hstart, by rw [hoffset', List.range_succ]; rfl⟩
    · rw [heq, hsome, hsource]
      change List.range call.offset ++ [call.offset] = List.range config.yellowstoneGrpc.length
      rw [hlast.antisymm hoffset, List.range_succ]

/-- `connect` refuses exactly the invalid configurations outright. A valid one it refuses only
after every source was attempted in vain, each once and in the configured order. -/
theorem connect_refused (config : AltConfig) :
    ((∃ error, connect config = .refused error) ↔ ¬ config.Valid) ∧
      ∀ inputs error, config.Valid →
        (connect config).run deserialize allocates config inputs = .refused error →
        (connect config).reports deserialize allocates config inputs =
          List.range config.yellowstoneGrpc.length := by
  have hstart (hvalid : config.Valid) : connect config = .connecting ⟨0, 0, .connecting⟩ := by
    rw [connect, AltConfig.check_iff.mpr hvalid, EstablishCall.start, EstablishCall.attemptAt,
      if_pos (List.length_pos_iff.mpr hvalid.yellowstoneGrpc)]
    rfl
  refine ⟨⟨?_, fun hinvalid => ?_⟩, fun inputs error hvalid hrefused => ?_⟩
  · rintro ⟨error, heq⟩ hvalid
    rw [hstart hvalid] at heq
    cases heq
  · cases hcheck : config.check with
    | error error => exact ⟨error, by rw [connect, hcheck]⟩
    | ok =>
      exact absurd (AltConfig.check_iff.mp hcheck) hinvalid
  · have hreported : ((connect config).run deserialize allocates config inputs).FirstReports config
        ((connect config).reports deserialize allocates config inputs) := by
      clear hrefused
      induction inputs using List.reverseRecOn with
      | nil =>
        change (connect config).FirstReports config []
        rw [hstart hvalid]
        exact ⟨rfl, rfl⟩
      | append_singleton inputs input ih =>
        rw [reports_concat, run_concat]
        exact ih.step (inRange_run deserialize allocates config inputs) input
    rw [hrefused] at hreported
    exact hreported

/-- A followed session that is lost leaves the turn with the next source. -/
theorem turn_lost {inner : Inner} {session : Session} {input : ClientInput}
    (h : ((running inner (.following session)).step deserialize allocates config input).turn
      config ≠ none) :
    ((running inner (.following session)).step deserialize allocates config input).turn config =
      some ((session.sourceIndex + 1) % config.yellowstoneGrpc.length) := by
  have hlost (inner : Inner) : (disconnected config inner session).turn config =
      some ((session.sourceIndex + 1) % config.yellowstoneGrpc.length) :=
    congrArg some (Nat.mod_mod _ _)
  cases input with
  | update update =>
    cases hevent : update.event? with
    | none =>
      simp only [step, taskStep, followStep, follow_passed hevent] at h
      exact absurd rfl h
    | some event =>
      have hsource := Session.sourceIndex_handle deserialize false session event
      simp only [step, taskStep, followStep, follow_event hevent] at h ⊢
      rw [← hsource]
      generalize session.handle deserialize false event = handled at h ⊢
      rcases handled with ⟨error | _ | _, after⟩
      · exact congrArg some (Nat.mod_mod _ _)
      · exact absurd rfl h
      · exact absurd rfl h
  | sourceFailed error => exact hlost inner
  | _ => exact absurd rfl h

/-- After a session is lost, the sources are attempted in cyclic order from the next one on,
until a session is established on the source whose turn it is. Any source that is never reported
unavailable bounds the number of failures by the way to it. -/
theorem recovery_order {before : List ClientInput} {inner : Inner} {session : Session}
    {input : ClientInput} {lost : Client}
    (hfollowing : (connect config).run deserialize allocates config before =
      .running inner (.following session))
    (hstep : (running inner (.following session)).step deserialize allocates config input = lost)
    (hlost : lost.turn config ≠ none)
    (hsearching : ∀ first, first <+: inputs → first ≠ inputs →
      (lost.run deserialize allocates config first).turn config ≠ none) :
    (∀ i (hi : i < (lost.reports deserialize allocates config inputs).length),
      (lost.reports deserialize allocates config inputs)[i] =
        (session.sourceIndex + 1 + i) % config.yellowstoneGrpc.length) ∧
    (∀ source < config.yellowstoneGrpc.length,
      source ∉ lost.reports deserialize allocates config inputs →
        (lost.reports deserialize allocates config inputs).length <
          Rotation.distance config.yellowstoneGrpc.length session.sourceIndex source) ∧
    ∀ inner' session', lost.run deserialize allocates config inputs =
        .running inner' (.following session') →
      session'.sourceIndex =
        (session.sourceIndex + 1 + (lost.reports deserialize allocates config inputs).length) %
          config.yellowstoneGrpc.length := by
  have hlived := lived_run deserialize allocates config before
  rw [hfollowing] at hlived
  have hsource : session.sourceIndex < config.yellowstoneGrpc.length := hlived.2.1
  have hturn : lost.turn config =
      some ((session.sourceIndex + 1) % config.yellowstoneGrpc.length) := by
    subst hstep
    exact turn_lost hlost
  have hrange (first : List ClientInput) :
      (lost.run deserialize allocates config first).InRange config := by
    have hrun : lost.run deserialize allocates config first =
        (connect config).run deserialize allocates config (before ++ input :: first) := by
      rw [run, run, List.foldl_append, List.foldl_cons, ← hstep, ← hfollowing]
      rfl
    rw [hrun]
    exact inRange_run deserialize allocates config _
  obtain ⟨hreports, hreached⟩ := reached_run hrange hturn (Nat.mod_lt _ (by omega)) hsearching
  have hnth (i : ℕ) (hi : i < (lost.reports deserialize allocates config inputs).length) :
      (lost.reports deserialize allocates config inputs)[i] =
        (session.sourceIndex + 1 + i) % config.yellowstoneGrpc.length := by
    rw [List.getElem_of_eq hreports, List.getElem_map, List.getElem_range, Nat.mod_add_mod]
  refine ⟨hnth, fun source hinside hnever => ?_, fun inner' session' hfound => ?_⟩
  · by_contra hmany
    have hdistance := Rotation.distance_mem hinside hsource
    have hlast := hnth (Rotation.distance config.yellowstoneGrpc.length session.sourceIndex source
      - 1) (by omega)
    have hway : session.sourceIndex + 1 +
        (Rotation.distance config.yellowstoneGrpc.length session.sourceIndex source - 1) =
        session.sourceIndex +
          Rotation.distance config.yellowstoneGrpc.length session.sourceIndex source := by omega
    rw [hway, Rotation.add_distance_mod hinside hsource] at hlast
    exact hnever (hlast ▸ List.getElem_mem _)
  · rcases hreached with hturn | ⟨inner, found, heq, hsame⟩ | hended
    · rw [hfound] at hturn
      cases hturn
    · rw [heq] at hfound
      cases hfound
      rw [hsame, Nat.mod_add_mod]
    · rw [hfound] at hended
      exact hended.elim

/-- One snapshot server and two sources. -/
def twoSources : AltConfig := ⟨["snapshots"], [⟨"first", none⟩, ⟨"second", none⟩]⟩

/-- A session with the first source over an empty snapshot of slot 5. -/
def emptySession : Session := .start 0 5 ∅

/-- The first source is lost and the second cannot be reached: the search is back at the first
before two failures. -/
theorem twoSources_recovery :
    ((disconnected twoSources (.serving emptySession) emptySession).reports acceptAll roomy
      twoSources [.elapsed, .sourceFailed "unreachable"]).length < Rotation.distance 2 0 0 := by
  have hfollowing : (connect twoSources).run acceptAll roomy twoSources
      [.subscribed, .chunk ⟨5, 0, []⟩, .snapshotEnded] =
      .running (.serving emptySession) (.following emptySession) := rfl
  have hlost : (running (.serving emptySession) (.following emptySession)).step acceptAll roomy
      twoSources (.sourceFailed "closed") =
      disconnected twoSources (.serving emptySession) emptySession := rfl
  refine (recovery_order hfollowing hlost (Option.some_ne_none 1) fun first hfirst hne => ?_).2.1 0
    (by decide) (by decide +kernel)
  rcases List.prefix_cons_iff.mp hfirst with rfl | ⟨rest, rfl, hrest⟩
  · exact Option.some_ne_none 1
  · rcases List.prefix_cons_iff.mp hrest with rfl | ⟨rest', rfl, hrest'⟩
    · exact Option.some_ne_none 1
    · rw [List.prefix_nil.mp hrest'] at hne
      exact absurd rfl hne

/-- A client that reaches neither of them is refused. -/
theorem twoSources_refused :
    (connect twoSources).reports acceptAll roomy twoSources
      [.sourceFailed "unreachable", .sourceFailed "unreachable"] = List.range 2 :=
  (connect_refused twoSources).2 _ _ (AltConfig.check_iff.mp (by decide +kernel)) rfl

end Client

end AltCache
