import Mathlib.Data.Finset.Insert
import Mathlib.Data.List.Forall2
import Mathlib.Data.Nat.Notation

/-!
# The server's configuration

URLs and tokens are given directly or by the name of an environment variable. `validate`
resolves all of them before anything is started; what it accepts is the conjunction of its
checks, so that every later resolution under the same environment succeeds with the same result.
-/

namespace AltCache

/-- The environment variables of the process. -/
abbrev Environment := String → Option String

/-- An address that a server listens on. -/
inductive SocketAddr where
  | v4 (ip port : ℕ)
  | v6 (ip port flowinfo scopeId : ℕ)
  deriving DecidableEq

structure BootstrapRpc where
  url : Option String
  urlEnv : Option String

structure GrpcSource where
  url : Option String
  urlEnv : Option String
  token : Option String
  tokenEnv : Option String

structure WebhookConfig where
  url : Option String
  urlEnv : Option String

/-- Where alerts are sent. -/
structure AlertsConfig where
  slack : Option WebhookConfig
  discord : Option WebhookConfig

/-- The configuration, without what only logging reads. -/
structure Config where
  httpAddr : SocketAddr
  snapshotGrpcAddr : SocketAddr
  bootstrapRpc : BootstrapRpc
  grpcSources : List GrpcSource
  yellowstoneIdleTimeoutSecs : ℕ
  fullRefreshIntervalSecs : ℕ
  streamCapacity : ℕ
  maxSnapshotPageSize : ℕ
  /-- `logging.file.max_days` -/
  maxDays : ℕ
  alerts : AlertsConfig

/-- `ensure!`: go on if a condition holds. -/
def ensure (condition : Prop) [Decidable condition] (message : String) : Except String Unit :=
  if condition then .ok () else .error message

/-- Read a secret from the environment. -/
def secret (env : Environment) (name : String) : Except String String :=
  match env name with
  | none => .error ("missing environment variable " ++ name)
  | some value => do
    ensure (value ≠ "") ("empty environment variable " ++ name)
    return value

/-- Resolve a value that may be left out. -/
def resolveOptional (env : Environment) (label : String) :
    Option String → Option String → Except String (Option String)
  | some _, some _ =>
    .error (label ++ " must use either a direct value or an environment variable, not both")
  | some value, none => do
    ensure (value ≠ "") (label ++ " must not be empty")
    return some value
  | none, some name => do
    let value ← secret env name
    return some value
  | none, none => .ok none

/-- Resolve a value that must be given. -/
def resolveRequired (env : Environment) (label : String) :
    Option String → Option String → Except String String
  | some _, some _ =>
    .error (label ++ " must use either a direct value or an environment variable, not both")
  | some value, none => do
    ensure (value ≠ "") (label ++ " must not be empty")
    return value
  | none, some name => secret env name
  | none, none => .error (label ++ " is required")

namespace BootstrapRpc

def resolveUrl (env : Environment) (rpc : BootstrapRpc) : Except String String :=
  resolveRequired env "bootstrap RPC URL" rpc.url rpc.urlEnv

end BootstrapRpc

namespace GrpcSource

def resolveUrl (env : Environment) (grpc : GrpcSource) : Except String String :=
  resolveRequired env "gRPC source URL" grpc.url grpc.urlEnv

def resolveToken (env : Environment) (grpc : GrpcSource) : Except String (Option String) :=
  resolveOptional env "gRPC source token" grpc.token grpc.tokenEnv

end GrpcSource

namespace WebhookConfig

def resolveUrl (env : Environment) (name : String) (webhook : WebhookConfig) :
    Except String String :=
  resolveRequired env name webhook.url webhook.urlEnv

end WebhookConfig

namespace Config

/-- Check the sources that are left, whose URLs must differ from those before. -/
def validateSources (env : Environment) (urls : Finset String) :
    List GrpcSource → Except String Unit
  | [] => .ok ()
  | grpc :: rest => do
    let url ← grpc.resolveUrl env
    ensure (url ∉ urls) "gRPC source URLs must be unique"
    let _ ← grpc.resolveToken env
    validateSources env (insert url urls) rest

/-- Resolve the URL of a webhook, if there is one. -/
def resolveWebhook (env : Environment) (name : String) (webhook : Option WebhookConfig) :
    Except String (Option String) :=
  match webhook with
  | none => .ok none
  | some webhook => do
    let url ← webhook.resolveUrl env name
    return some url

/-- Check a configuration before anything is started. -/
def validate (env : Environment) (config : Config) : Except String Unit := do
  ensure (config.httpAddr ≠ config.snapshotGrpcAddr)
    "http_addr and snapshot_grpc_addr must be different"
  ensure (config.grpcSources ≠ []) "at least one gRPC source is required"
  ensure (0 < config.streamCapacity) "stream_capacity must be positive"
  ensure (0 < config.maxSnapshotPageSize) "max_snapshot_page_size must be positive"
  ensure (0 < config.yellowstoneIdleTimeoutSecs) "yellowstone_idle_timeout_secs must be positive"
  ensure (0 < config.fullRefreshIntervalSecs) "full_refresh_interval_secs must be positive"
  ensure (0 < config.maxDays) "max_days must be positive"
  let _ ← config.bootstrapRpc.resolveUrl env
  validateSources env ∅ config.grpcSources
  let _ ← resolveWebhook env "Slack webhook URL" config.alerts.slack
  let _ ← resolveWebhook env "Discord webhook URL" config.alerts.discord
  return ()

/-- The URLs of the sources, in the order of the configuration. -/
def sourceUrls (env : Environment) (config : Config) : Except String (List String) :=
  config.grpcSources.mapM (·.resolveUrl env)

/-- A configuration with which the server can be started, given the URLs of its sources. -/
structure Valid (env : Environment) (config : Config) (urls : List String) : Prop where
  addresses : config.httpAddr ≠ config.snapshotGrpcAddr
  sources : config.grpcSources ≠ []
  streamCapacity : 0 < config.streamCapacity
  maxSnapshotPageSize : 0 < config.maxSnapshotPageSize
  yellowstoneIdleTimeoutSecs : 0 < config.yellowstoneIdleTimeoutSecs
  fullRefreshIntervalSecs : 0 < config.fullRefreshIntervalSecs
  maxDays : 0 < config.maxDays
  bootstrapRpc : ∃ url, config.bootstrapRpc.resolveUrl env = .ok url
  resolved : List.Forall₂ (fun grpc url => grpc.resolveUrl env = .ok url) config.grpcSources urls
  distinct : urls.Nodup
  tokens : ∀ grpc ∈ config.grpcSources, ∃ token, grpc.resolveToken env = .ok token
  slack : ∃ url, resolveWebhook env "Slack webhook URL" config.alerts.slack = .ok url
  discord : ∃ url, resolveWebhook env "Discord webhook URL" config.alerts.discord = .ok url

section Checks

variable {env : Environment} {ε α β : Type} {message : String}

/-- A check passes if its condition holds. -/
@[simp] theorem ensure_eq_ok {condition : Prop} [Decidable condition] {checked : Unit} :
    ensure condition message = .ok checked ↔ condition := by
  unfold ensure
  split <;> simp_all

/-- A sequence of computations succeeds if each does. -/
theorem bind_eq_ok {first : Except ε α} {next : α → Except ε β} {result : β} :
    (do let value ← first; next value) = .ok result ↔
      ∃ value, first = .ok value ∧ next value = .ok result := by
  cases first with
  | error error => simp [bind, Except.bind]
  | ok value => simp [bind, Except.bind]

/-- The sources pass if all are resolved, to URLs that differ from each other and from those
before. -/
theorem validateSources_eq_ok {seen : Finset String} {grpcSources : List GrpcSource}
    {checked : Unit} :
    validateSources env seen grpcSources = .ok checked ↔
      (∃ urls, List.Forall₂ (fun grpc url => grpc.resolveUrl env = .ok url) grpcSources urls ∧
        urls.Nodup ∧ ∀ url ∈ urls, url ∉ seen) ∧
      ∀ grpc ∈ grpcSources, ∃ token, grpc.resolveToken env = .ok token := by
  induction grpcSources generalizing seen with
  | nil => simp [validateSources]
  | cons grpc rest ih =>
    simp only [validateSources, bind_eq_ok, ensure_eq_ok, ih]
    constructor
    · rintro ⟨url, hurl, -, hfresh, token, htoken, ⟨urls, hurls, hdistinct, hnew⟩, htokens⟩
      refine ⟨⟨url :: urls, .cons hurl hurls, List.nodup_cons.mpr ⟨fun hmem => ?_, hdistinct⟩,
        fun other hother => ?_⟩, fun other hother => ?_⟩
      · exact hnew url hmem (Finset.mem_insert_self ..)
      · rcases List.mem_cons.mp hother with rfl | hother
        · exact hfresh
        · exact fun hmem => hnew other hother (Finset.mem_insert_of_mem hmem)
      · rcases List.mem_cons.mp hother with rfl | hother
        · exact ⟨token, htoken⟩
        · exact htokens other hother
    · rintro ⟨⟨_, hurls, hdistinct, hnew⟩, htokens⟩
      cases hurls with
      | @cons _ url _ urls hurl hurls =>
        obtain ⟨hfresh, hdistinct⟩ := List.nodup_cons.mp hdistinct
        obtain ⟨token, htoken⟩ := htokens grpc List.mem_cons_self
        refine ⟨url, hurl, (), hnew url List.mem_cons_self, token, htoken,
          ⟨urls, hurls, hdistinct, fun other hother hmem => ?_⟩,
          fun other hother => htokens other (List.mem_cons_of_mem _ hother)⟩
        rcases Finset.mem_insert.mp hmem with rfl | hmem
        · exact hfresh hother
        · exact hnew other (List.mem_cons_of_mem _ hother) hmem

/-- The URLs of sources that all can be resolved. -/
theorem sourceUrls_eq_ok {config : Config} {urls : List String} :
    config.sourceUrls env = .ok urls ↔
      List.Forall₂ (fun grpc url => grpc.resolveUrl env = .ok url) config.grpcSources urls := by
  unfold sourceUrls
  generalize config.grpcSources = grpcSources
  induction grpcSources generalizing urls with
  | nil => cases urls <;> simp [pure, Except.pure]
  | cons grpc rest ih =>
    simp only [List.mapM_cons, bind_eq_ok, List.forall₂_cons_left_iff, ih]
    constructor
    · rintro ⟨url, hurl, others, hothers, hsame⟩
      exact ⟨url, others, hurl, hothers, (Except.ok.inj hsame).symm⟩
    · rintro ⟨url, others, hurl, hothers, rfl⟩
      exact ⟨url, hurl, others, hothers, rfl⟩

/-- A configuration passes exactly if it is valid. -/
theorem validate_eq_ok {config : Config} :
    config.validate env = .ok () ↔ ∃ urls, config.Valid env urls := by
  simp only [validate, bind_eq_ok, ensure_eq_ok, validateSources_eq_ok]
  constructor
  · rintro ⟨-, haddresses, -, hsources, -, hcapacity, -, hpage, -, hidle, -, hrefresh, -, hdays,
      rpc, hrpc, -, ⟨⟨urls, hurls, hdistinct, -⟩, htokens⟩, slack, hslack, discord, hdiscord, -⟩
    exact ⟨urls, haddresses, hsources, hcapacity, hpage, hidle, hrefresh, hdays, ⟨rpc, hrpc⟩,
      hurls, hdistinct, htokens, ⟨slack, hslack⟩, ⟨discord, hdiscord⟩⟩
  · rintro ⟨urls, h⟩
    obtain ⟨rpc, hrpc⟩ := h.bootstrapRpc
    obtain ⟨slack, hslack⟩ := h.slack
    obtain ⟨discord, hdiscord⟩ := h.discord
    exact ⟨(), h.addresses, (), h.sources, (), h.streamCapacity, (), h.maxSnapshotPageSize, (),
      h.yellowstoneIdleTimeoutSecs, (), h.fullRefreshIntervalSecs, (), h.maxDays, rpc, hrpc, (),
      ⟨⟨urls, h.resolved, h.distinct, fun _ _ => Finset.notMem_empty _⟩, h.tokens⟩, slack, hslack,
      discord, hdiscord, rfl⟩

end Checks

end Config

end AltCache
