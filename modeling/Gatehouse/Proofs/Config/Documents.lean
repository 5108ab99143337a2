import Gatehouse.Config.Decode
import Gatehouse.Config.Encode
import Gatehouse.Proofs.Config.Numbers
import Gatehouse.Proofs.Document.Json
import Gatehouse.Proofs.Document.Overriding

/-!
# Documents of a configuration

A document of the expected form gives any of the fields of a configuration. What is decoded from it
is the standard configuration with exactly these fields overridden; so the order of the keys makes
no difference, nor do keys that nobody knows. A configuration that is written, as a document or as
JSON, is read back as it was; as TOML too, if its numbers are in range there.

* `Config.shape`: the expected form.
* `Decodes`: to decode is to override the default.
* `decode?_encode`: a written configuration is read back; `toml_render`: also from TOML.
* `documents_override`: what is decoded from which documents.
-/

namespace Gatehouse.Config

open Document (lookup? Shape overrideBy? override_table)

/-! ## The expected form -/

def TrafficMode.shape : Shape := .choice ["standalone", "orchestrated"]

def LogFormat.shape : Shape := .choice ["pretty", "json"]

def uint32Shape : Shape := .natural UInt32.size

def uint64Shape : Shape := .natural UInt64.size

def Listener.shape : Shape :=
  .table [("bind_address", .text), ("drain_timeout_secs", uint64Shape)]

def Readiness.shape : Shape := .table [("traffic_mode", TrafficMode.shape)]

def RateLimit.shape : Shape :=
  .table [("enabled", .boolean), ("requests_per_second", uint32Shape), ("burst_size", uint32Shape)]

def BulkheadSection.shape : Shape :=
  .table [("enabled", .boolean), ("max_concurrent", uint64Shape),
    ("acquire_timeout_ms", uint64Shape)]

def CircuitBreakerSection.shape : Shape :=
  .table [("enabled", .boolean), ("name", .text), ("failure_threshold", uint32Shape),
    ("open_interval_ms", uint64Shape), ("half_open_max_calls", uint32Shape),
    ("window_ms", uint64Shape)]

def Admission.shape : Shape :=
  .table [("request_timeout_ms", uint64Shape), ("recover_panics", .boolean),
    ("rate_limit", RateLimit.shape), ("bulkhead", BulkheadSection.shape),
    ("circuit_breaker", CircuitBreakerSection.shape)]

def Outbound.shape : Shape :=
  .table [("timeout_secs", uint64Shape), ("max_idle_per_host", uint64Shape),
    ("idle_timeout_secs", uint64Shape), ("max_lifetime_secs", uint64Shape)]

def Observability.shape : Shape :=
  .table [("log_level", .text), ("log_format", LogFormat.shape), ("metrics_enabled", .boolean),
    ("metrics_address", .text)]

def shape : Shape :=
  .table [("listener", Listener.shape), ("readiness", Readiness.shape),
    ("admission", Admission.shape), ("outbound", Outbound.shape),
    ("observability", Observability.shape)]

/-! ## One value -/

/-- From every document of the expected form something is decoded, and it is written as the default
is, overridden by the document. -/
def Decodes {α : Type} (shape : Shape) (read : Document → Option α) (write : α → Document)
    (default : α) : Prop :=
  ∀ d, shape.Fits d → ∃ a, read d = some a ∧ write a = (write default).override d

variable {α : Type} {shape : Shape} {read : Document → Option α} {write : α → Document}
  {default : α}

/-- A field that may be missing. -/
theorem Decodes.field (h : Decodes shape read write default)
    {fields : List (String × Shape)} {given : List (String × Document)}
    (hFits : ∀ f ∈ fields, ∀ v, lookup? given f.1 = some v → f.2.Fits v) (name : String)
    (hMem : (name, shape) ∈ fields) :
    ∃ a, View.field? (lookup? given) name read default = some a ∧
      write a = (write default).overrideBy? (lookup? given name) := by
  unfold View.field?
  cases hGiven : lookup? given name with
  | none => exact ⟨default, rfl, rfl⟩
  | some d => exact h d (hFits _ hMem d hGiven)

theorem decodes_text (default : String) : Decodes .text text? .text default := by
  intro d hFits
  cases hFits with
  | text s => exact ⟨s, rfl, rfl⟩

theorem decodes_boolean (default : Bool) : Decodes .boolean boolean? .boolean default := by
  intro d hFits
  cases hFits with
  | boolean b => exact ⟨b, rfl, rfl⟩

theorem natBelow?_integer {bound n : Nat} (h : n < bound) :
    natBelow? bound (.integer n) = some n := by
  rw [natBelow?, if_pos ⟨Int.natCast_nonneg n, Int.ofNat_lt.mpr h⟩, Int.toNat_natCast]

theorem decodes_uint32 (default : UInt32) : Decodes uint32Shape uint32? ofUInt32 default := by
  intro d hFits
  cases hFits with
  | @natural _ n hBound =>
    refine ⟨UInt32.ofNat n, ?_, ?_⟩
    · rw [uint32?, natBelow?_integer hBound, Option.map_some]
    · rw [ofUInt32, UInt32.toNat_ofNat_of_lt' hBound]
      rfl

theorem decodes_uint64 (default : UInt64) : Decodes uint64Shape uint64? ofUInt64 default := by
  intro d hFits
  cases hFits with
  | @natural _ n hBound =>
    refine ⟨UInt64.ofNat n, ?_, ?_⟩
    · rw [uint64?, natBelow?_integer hBound, Option.map_some]
    · rw [ofUInt64, UInt64.toNat_ofNat_of_lt' hBound]
      rfl

theorem decodes_trafficMode (dialect : Dialect) (default : TrafficMode) :
    Decodes TrafficMode.shape (choice? dialect trafficModes) (fun m => .text m.name) default := by
  intro d hFits
  cases hFits with
  | choice hName =>
    rcases List.mem_pair.mp hName with rfl | rfl
    · exact ⟨.standalone, rfl, rfl⟩
    · exact ⟨.orchestrated, rfl, rfl⟩

theorem decodes_logFormat (dialect : Dialect) (default : LogFormat) :
    Decodes LogFormat.shape (choice? dialect logFormats) (fun f => .text f.name) default := by
  intro d hFits
  cases hFits with
  | choice hName =>
    rcases List.mem_pair.mp hName with rfl | rfl
    · exact ⟨.pretty, rfl, rfl⟩
    · exact ⟨.json, rfl, rfl⟩

/-! ## The sections -/

section Sections

variable (dialect : Dialect)

theorem decodes_listener :
    Decodes Listener.shape (Listener.decode? dialect) Listener.encode {} := by
  intro d hFits
  cases hFits with
  | @table _ given _ hFits =>
    let standard : Listener := {}
    obtain ⟨bind, hBind, hBind'⟩ :=
      (decodes_text standard.bindAddress).field hFits "bind_address" (by simp)
    obtain ⟨drain, hDrain, hDrain'⟩ :=
      (decodes_uint64 standard.drainTimeoutSecs).field hFits
        "drain_timeout_secs" (by simp)
    refine ⟨⟨bind, drain⟩, ?_, ?_⟩
    · simp [Listener.decode?, view?, standard, hBind, hDrain]
    · rw [Listener.encode, hBind', hDrain', Listener.encode, override_table]
      rfl

theorem decodes_readiness :
    Decodes Readiness.shape (Readiness.decode? dialect) Readiness.encode {} := by
  intro d hFits
  cases hFits with
  | @table _ given _ hFits =>
    let standard : Readiness := {}
    obtain ⟨mode, hMode, hMode'⟩ :=
      (decodes_trafficMode dialect standard.trafficMode).field hFits
        "traffic_mode" (by simp)
    refine ⟨⟨mode⟩, ?_, ?_⟩
    · simp [Readiness.decode?, view?, standard, hMode]
    · rw [Readiness.encode, hMode', Readiness.encode, override_table]
      rfl

theorem decodes_rateLimit :
    Decodes RateLimit.shape (RateLimit.decode? dialect) RateLimit.encode {} := by
  intro d hFits
  cases hFits with
  | @table _ given _ hFits =>
    let standard : RateLimit := {}
    obtain ⟨enabled, hEnabled, hEnabled'⟩ :=
      (decodes_boolean standard.enabled).field hFits "enabled" (by simp)
    obtain ⟨rate, hRate, hRate'⟩ :=
      (decodes_uint32 standard.requestsPerSecond).field hFits
        "requests_per_second" (by simp)
    obtain ⟨burst, hBurst, hBurst'⟩ :=
      (decodes_uint32 standard.burstSize).field hFits "burst_size" (by simp)
    refine ⟨⟨enabled, rate, burst⟩, ?_, ?_⟩
    · simp [RateLimit.decode?, view?, standard, hEnabled, hRate, hBurst]
    · rw [RateLimit.encode, hEnabled', hRate', hBurst', RateLimit.encode, override_table]
      rfl

theorem decodes_bulkhead :
    Decodes BulkheadSection.shape (BulkheadSection.decode? dialect) BulkheadSection.encode {} := by
  intro d hFits
  cases hFits with
  | @table _ given _ hFits =>
    let standard : BulkheadSection := {}
    obtain ⟨enabled, hEnabled, hEnabled'⟩ :=
      (decodes_boolean standard.enabled).field hFits "enabled" (by simp)
    obtain ⟨slots, hSlots, hSlots'⟩ :=
      (decodes_uint64 standard.maxConcurrent).field hFits "max_concurrent" (by simp)
    obtain ⟨wait, hWait, hWait'⟩ :=
      (decodes_uint64 standard.acquireTimeoutMs).field hFits
        "acquire_timeout_ms" (by simp)
    refine ⟨⟨enabled, slots, wait⟩, ?_, ?_⟩
    · simp [BulkheadSection.decode?, view?, standard, hEnabled, hSlots, hWait]
    · rw [BulkheadSection.encode, hEnabled', hSlots', hWait', BulkheadSection.encode,
      override_table]
      rfl

theorem decodes_circuitBreaker :
    Decodes CircuitBreakerSection.shape (CircuitBreakerSection.decode? dialect)
      CircuitBreakerSection.encode {} := by
  intro d hFits
  cases hFits with
  | @table _ given _ hFits =>
    let standard : CircuitBreakerSection := {}
    obtain ⟨enabled, hEnabled, hEnabled'⟩ :=
      (decodes_boolean standard.enabled).field hFits "enabled" (by simp)
    obtain ⟨name, hName, hName'⟩ :=
      (decodes_text standard.name).field hFits "name" (by simp)
    obtain ⟨failures, hFailures, hFailures'⟩ :=
      (decodes_uint32 standard.failureThreshold).field hFits "failure_threshold" (by simp)
    obtain ⟨interval, hInterval, hInterval'⟩ :=
      (decodes_uint64 standard.openIntervalMs).field hFits "open_interval_ms" (by simp)
    obtain ⟨trials, hTrials, hTrials'⟩ :=
      (decodes_uint32 standard.halfOpenMaxCalls).field hFits
        "half_open_max_calls" (by simp)
    obtain ⟨window, hWindow, hWindow'⟩ :=
      (decodes_uint64 standard.windowMs).field hFits "window_ms" (by simp)
    refine ⟨⟨enabled, name, failures, interval, trials, window⟩, ?_, ?_⟩
    · simp [CircuitBreakerSection.decode?, view?, standard, hEnabled, hName, hFailures, hInterval,
      hTrials, hWindow]
    · rw [CircuitBreakerSection.encode, hEnabled', hName', hFailures', hInterval', hTrials',
      hWindow', CircuitBreakerSection.encode, override_table]
      rfl

theorem decodes_admission :
    Decodes Admission.shape (Admission.decode? dialect) Admission.encode {} := by
  intro d hFits
  cases hFits with
  | @table _ given _ hFits =>
    let standard : Admission := {}
    obtain ⟨limit, hLimit, hLimit'⟩ :=
      (decodes_uint64 standard.requestTimeoutMs).field hFits
        "request_timeout_ms" (by simp)
    obtain ⟨recovers, hRecovers, hRecovers'⟩ :=
      (decodes_boolean standard.recoverPanics).field hFits "recover_panics" (by simp)
    obtain ⟨rate, hRate, hRate'⟩ :=
      (decodes_rateLimit dialect).field hFits "rate_limit" (by simp)
    obtain ⟨slots, hSlots, hSlots'⟩ :=
      (decodes_bulkhead dialect).field hFits "bulkhead" (by simp)
    obtain ⟨breaker, hBreaker, hBreaker'⟩ :=
      (decodes_circuitBreaker dialect).field hFits "circuit_breaker" (by simp)
    refine ⟨⟨limit, recovers, rate, slots, breaker⟩, ?_, ?_⟩
    · simp [Admission.decode?, view?, standard, hLimit, hRecovers, hRate, hSlots, hBreaker]
    · rw [Admission.encode, hLimit', hRecovers', hRate', hSlots', hBreaker', Admission.encode,
      override_table]
      rfl

theorem decodes_outbound :
    Decodes Outbound.shape (Outbound.decode? dialect) Outbound.encode {} := by
  intro d hFits
  cases hFits with
  | @table _ given _ hFits =>
    let standard : Outbound := {}
    obtain ⟨limit, hLimit, hLimit'⟩ :=
      (decodes_uint64 standard.timeoutSecs).field hFits "timeout_secs" (by simp)
    obtain ⟨idle, hIdle, hIdle'⟩ :=
      (decodes_uint64 standard.maxIdlePerHost).field hFits "max_idle_per_host" (by simp)
    obtain ⟨idleTime, hIdleTime, hIdleTime'⟩ :=
      (decodes_uint64 standard.idleTimeoutSecs).field hFits "idle_timeout_secs" (by simp)
    obtain ⟨lifetime, hLifetime, hLifetime'⟩ :=
      (decodes_uint64 standard.maxLifetimeSecs).field hFits "max_lifetime_secs" (by simp)
    refine ⟨⟨limit, idle, idleTime, lifetime⟩, ?_, ?_⟩
    · simp [Outbound.decode?, view?, standard, hLimit, hIdle, hIdleTime, hLifetime]
    · rw [Outbound.encode, hLimit', hIdle', hIdleTime', hLifetime', Outbound.encode,
        override_table]
      rfl

theorem decodes_observability :
    Decodes Observability.shape (Observability.decode? dialect) Observability.encode {} := by
  intro d hFits
  cases hFits with
  | @table _ given _ hFits =>
    let standard : Observability := {}
    obtain ⟨level, hLevel, hLevel'⟩ :=
      (decodes_text standard.logLevel).field hFits "log_level" (by simp)
    obtain ⟨format, hFormat, hFormat'⟩ :=
      (decodes_logFormat dialect standard.logFormat).field hFits "log_format" (by simp)
    obtain ⟨metrics, hMetrics, hMetrics'⟩ :=
      (decodes_boolean standard.metricsEnabled).field hFits "metrics_enabled" (by simp)
    obtain ⟨address, hAddress, hAddress'⟩ :=
      (decodes_text standard.metricsAddress).field hFits "metrics_address" (by simp)
    refine ⟨⟨level, format, metrics, address⟩, ?_, ?_⟩
    · simp [Observability.decode?, view?, standard, hLevel, hFormat, hMetrics, hAddress]
    · rw [Observability.encode, hLevel', hFormat', hMetrics', hAddress', Observability.encode,
      override_table]
      rfl

/-- A configuration is the standard one, overridden by the document. -/
theorem decodes_config :
    Decodes Config.shape (Config.decode? dialect) Config.encode {} := by
  intro d hFits
  cases hFits with
  | @table _ given _ hFits =>
    obtain ⟨listener, hListener, hListener'⟩ :=
      (decodes_listener dialect).field hFits "listener" (by simp)
    obtain ⟨readiness, hReadiness, hReadiness'⟩ :=
      (decodes_readiness dialect).field hFits "readiness" (by simp)
    obtain ⟨admission, hAdmission, hAdmission'⟩ :=
      (decodes_admission dialect).field hFits "admission" (by simp)
    obtain ⟨outbound, hOutbound, hOutbound'⟩ :=
      (decodes_outbound dialect).field hFits "outbound" (by simp)
    obtain ⟨observability, hObservability, hObservability'⟩ :=
      (decodes_observability dialect).field hFits "observability" (by simp)
    refine ⟨⟨listener, readiness, admission, outbound, observability⟩, ?_, ?_⟩
    · simp [Config.decode?, view?, hListener, hReadiness, hAdmission, hOutbound, hObservability]
    · rw [Config.encode, hListener', hReadiness', hAdmission', hOutbound', hObservability',
        Config.encode, override_table]
      rfl

end Sections

/-! ## What was written -/

/-- An entry that is of its form. -/
theorem fits_entry {given : List (String × Document)} {name : String} {d : Document}
    (hGiven : lookup? given name = some d) (hFits : shape.Fits d) :
    ∀ v, lookup? given name = some v → shape.Fits v := by
  intro v hFound
  rw [hGiven] at hFound
  cases hFound
  exact hFits

theorem fits_missing {given : List (String × Document)} {name : String}
    (hGiven : lookup? given name = none) : ∀ v, lookup? given name = some v → shape.Fits v := by
  intro v hFound
  rw [hGiven] at hFound
  cases hFound

theorem fits_uint32 (n : UInt32) : uint32Shape.Fits (ofUInt32 n) := .natural n.toNat_lt_size

theorem fits_uint64 (n : UInt64) : uint64Shape.Fits (ofUInt64 n) := .natural n.toNat_lt_size

theorem fits_trafficMode (m : TrafficMode) : TrafficMode.shape.Fits (.text m.name) := by
  cases m <;> exact .choice (by decide)

theorem fits_logFormat (f : LogFormat) : LogFormat.shape.Fits (.text f.name) := by
  cases f <;> exact .choice (by decide)

theorem fits_listener (c : Listener) : Listener.shape.Fits c.encode := by
  refine .table (by simp) ?_
  simp only [List.forall_mem_cons]
  exact ⟨fits_entry rfl (.text _), fits_entry rfl (fits_uint64 _), nofun⟩

theorem fits_readiness (c : Readiness) : Readiness.shape.Fits c.encode := by
  refine .table (by simp) ?_
  simp only [List.forall_mem_cons]
  exact ⟨fits_entry rfl (fits_trafficMode _), nofun⟩

theorem fits_rateLimit (c : RateLimit) : RateLimit.shape.Fits c.encode := by
  refine .table (by simp) ?_
  simp only [List.forall_mem_cons]
  exact ⟨fits_entry rfl (.boolean _), fits_entry rfl (fits_uint32 _),
    fits_entry rfl (fits_uint32 _), nofun⟩

theorem fits_bulkhead (c : BulkheadSection) : BulkheadSection.shape.Fits c.encode := by
  refine .table (by simp) ?_
  simp only [List.forall_mem_cons]
  exact ⟨fits_entry rfl (.boolean _), fits_entry rfl (fits_uint64 _),
    fits_entry rfl (fits_uint64 _), nofun⟩

theorem fits_circuitBreaker (c : CircuitBreakerSection) :
    CircuitBreakerSection.shape.Fits c.encode := by
  refine .table (by simp) ?_
  simp only [List.forall_mem_cons]
  exact ⟨fits_entry rfl (.boolean _), fits_entry rfl (.text _), fits_entry rfl (fits_uint32 _),
    fits_entry rfl (fits_uint64 _), fits_entry rfl (fits_uint32 _),
    fits_entry rfl (fits_uint64 _), nofun⟩

theorem fits_admission (c : Admission) : Admission.shape.Fits c.encode := by
  refine .table (by simp) ?_
  simp only [List.forall_mem_cons]
  exact ⟨fits_entry rfl (fits_uint64 _), fits_entry rfl (.boolean _),
    fits_entry rfl (fits_rateLimit _), fits_entry rfl (fits_bulkhead _),
    fits_entry rfl (fits_circuitBreaker _), nofun⟩

theorem fits_outbound (c : Outbound) : Outbound.shape.Fits c.encode := by
  refine .table (by simp) ?_
  simp only [List.forall_mem_cons]
  exact ⟨fits_entry rfl (fits_uint64 _), fits_entry rfl (fits_uint64 _),
    fits_entry rfl (fits_uint64 _), fits_entry rfl (fits_uint64 _), nofun⟩

theorem fits_observability (c : Observability) : Observability.shape.Fits c.encode := by
  refine .table (by simp) ?_
  simp only [List.forall_mem_cons]
  exact ⟨fits_entry rfl (.text _), fits_entry rfl (fits_logFormat _),
    fits_entry rfl (.boolean _), fits_entry rfl (.text _), nofun⟩

/-- What is written is of the expected form. -/
theorem fits_encode (c : Config) : Config.shape.Fits c.encode := by
  refine .table (by simp) ?_
  simp only [List.forall_mem_cons]
  exact ⟨fits_entry rfl (fits_listener _), fits_entry rfl (fits_readiness _),
    fits_entry rfl (fits_admission _), fits_entry rfl (fits_outbound _),
    fits_entry rfl (fits_observability _), nofun⟩

/-- All fields are written. -/
theorem override_encode (c c' : Config) : c.encode.override c'.encode = c'.encode := rfl

theorem ofUInt32_inj {m n : UInt32} : ofUInt32 m = ofUInt32 n ↔ m = n := by
  rw [ofUInt32, ofUInt32, Document.integer.injEq, Int.natCast_inj, UInt32.toNat_inj]

theorem ofUInt64_inj {m n : UInt64} : ofUInt64 m = ofUInt64 n ↔ m = n := by
  rw [ofUInt64, ofUInt64, Document.integer.injEq, Int.natCast_inj, UInt64.toNat_inj]

theorem TrafficMode.name_injective : Function.Injective TrafficMode.name := by
  have hFound : ∀ m : TrafficMode, choice? .toml trafficModes (.text m.name) = some m := by
    intro m
    cases m <;> rfl
  intro m m' h
  exact Option.some.inj ((hFound m).symm.trans ((congrArg _ (congrArg _ h)).trans (hFound m')))

theorem LogFormat.name_injective : Function.Injective LogFormat.name := by
  have hFound : ∀ f : LogFormat, choice? .toml logFormats (.text f.name) = some f := by
    intro f
    cases f <;> rfl
  intro f f' h
  exact Option.some.inj ((hFound f).symm.trans ((congrArg _ (congrArg _ h)).trans (hFound f')))

theorem Listener.encode_injective : Function.Injective Listener.encode := by
  rintro ⟨⟩ ⟨⟩ h
  simpa [Listener.encode, ofUInt64_inj] using h

theorem Readiness.encode_injective : Function.Injective Readiness.encode := by
  rintro ⟨⟩ ⟨⟩ h
  simpa [Readiness.encode, TrafficMode.name_injective.eq_iff] using h

theorem RateLimit.encode_injective : Function.Injective RateLimit.encode := by
  rintro ⟨⟩ ⟨⟩ h
  simpa [RateLimit.encode, ofUInt32_inj] using h

theorem BulkheadSection.encode_injective : Function.Injective BulkheadSection.encode := by
  rintro ⟨⟩ ⟨⟩ h
  simpa [BulkheadSection.encode, ofUInt64_inj] using h

theorem CircuitBreakerSection.encode_injective :
    Function.Injective CircuitBreakerSection.encode := by
  rintro ⟨⟩ ⟨⟩ h
  simpa [CircuitBreakerSection.encode, ofUInt32_inj, ofUInt64_inj] using h

theorem Admission.encode_injective : Function.Injective Admission.encode := by
  rintro ⟨⟩ ⟨⟩ h
  simpa [Admission.encode, ofUInt64_inj, RateLimit.encode_injective.eq_iff,
    BulkheadSection.encode_injective.eq_iff, CircuitBreakerSection.encode_injective.eq_iff] using h

theorem Outbound.encode_injective : Function.Injective Outbound.encode := by
  rintro ⟨⟩ ⟨⟩ h
  simpa [Outbound.encode, ofUInt64_inj] using h

theorem Observability.encode_injective : Function.Injective Observability.encode := by
  rintro ⟨⟩ ⟨⟩ h
  simpa [Observability.encode, LogFormat.name_injective.eq_iff] using h

theorem encode_injective : Function.Injective Config.encode := by
  rintro ⟨⟩ ⟨⟩ h
  simpa [Config.encode, Listener.encode_injective.eq_iff, Readiness.encode_injective.eq_iff,
    Admission.encode_injective.eq_iff, Outbound.encode_injective.eq_iff,
    Observability.encode_injective.eq_iff] using h

/-- A configuration that was written is read back. -/
theorem decode?_encode (dialect : Dialect) (c : Config) :
    Config.decode? dialect c.encode = some c := by
  obtain ⟨c', hDecode, hEncode⟩ := decodes_config dialect c.encode (fits_encode c)
  rw [override_encode] at hEncode
  rw [hDecode, encode_injective hEncode]

theorem plain_encode (c : Config) : Document.Json.Plain c.encode := by
  simp [Config.encode, Listener.encode, Readiness.encode, Admission.encode, RateLimit.encode,
    BulkheadSection.encode, CircuitBreakerSection.encode, Outbound.encode, Observability.encode,
    ofUInt32, ofUInt64, Document.Json.plain_table, Document.Json.Plain.integer,
    Document.Json.Plain.text, Document.Json.Plain.boolean]

/-- The limit of nesting leaves room for the three levels of a configuration. -/
theorem toml_render {c : Config} (h : ∀ n ∈ c.wideNumbers, Narrow n) :
    Toml.parse (Toml.render c.encode) = some c.encode := by
  have hWritable : Toml.Writable Toml.nestingLimit c.encode := writable_encode 77 h
  rw [Config.encode] at hWritable ⊢
  exact Toml.parse_render hWritable

/-- A document of the expected form, whichever sections and fields it gives and whatever unknown
keys there are, gives the standard configuration with exactly these fields overridden. Another such
document that differs in the order of keys, at any level, and in unknown keys gives the same. Every
configuration is written in the expected form, and is read back from what was written, as a document
or as JSON; as TOML it is read back exactly if its numbers can be said there. -/
theorem documents_override :
    (∀ dialect d, Config.shape.Fits d →
      ∃ c, Config.decode? dialect d = some c ∧
        c.encode = ({} : Config).encode.override d ∧
        ∀ d', Config.shape.Fits d' → Document.Restated ({} : Config).encode d d' →
          Config.decode? dialect d' = some c) ∧
    (∀ c : Config, Config.shape.Fits c.encode ∧
      (∀ dialect, Config.decode? dialect c.encode = some c) ∧
      (Document.Json.parse (Document.Json.render c.encode)).bind (Config.decode? .json) =
        some c) ∧
    ∀ c : Config,
      ((∀ n ∈ c.wideNumbers, n.toNat < 2 ^ 63) →
        (Toml.parse (Toml.render c.encode)).bind (Config.decode? .toml) = some c) ∧
      ∀ text, (Toml.parse text).bind (Config.decode? .toml) = some c →
        ∀ n ∈ c.wideNumbers, n.toNat < 2 ^ 63 := by
  refine ⟨fun dialect d hFits => ?_, fun c => ⟨fits_encode c, fun dialect => ?_, ?_⟩,
    fun c => ⟨fun hNarrow => ?_, fun text hText => ?_⟩⟩
  · obtain ⟨c, hDecode, hEncode⟩ := decodes_config dialect d hFits
    refine ⟨c, hDecode, hEncode, fun d' hFits' hRestated => ?_⟩
    obtain ⟨c', hDecode', hEncode'⟩ := decodes_config dialect d' hFits'
    rw [hRestated.override_eq, ← hEncode] at hEncode'
    rw [hDecode', encode_injective hEncode']
  · exact decode?_encode dialect c
  · rw [Document.Json.parse_render (plain_encode c), Option.bind_some, decode?_encode]
  · rw [toml_render hNarrow, Option.bind_some, decode?_encode]
  · obtain ⟨d, hParse, hDecode⟩ := Option.bind_eq_some_iff.mp hText
    exact wideNumbers_of_decode? .toml (Toml.inRange_of_parse hParse) hDecode

/-- One field of one section, and two of a section within another. -/
def sparse : Document :=
  .table [("readiness", .table [("traffic_mode", .text "orchestrated")]),
    ("admission", .table [("bulkhead",
      .table [("enabled", .boolean true), ("max_concurrent", .integer 2)])])]

/-- The same in another order, at two levels, and with a key that is not known. -/
def sparseRestated : Document :=
  .table [("colour", .text "green"),
    ("admission", .table [("bulkhead",
      .table [("max_concurrent", .integer 2), ("enabled", .boolean true)])]),
    ("readiness", .table [("traffic_mode", .text "orchestrated")])]

theorem fits_sparse : Config.shape.Fits sparse := by
  refine .table (by simp) ?_
  simp only [List.forall_mem_cons]
  refine ⟨fits_missing rfl, fits_entry rfl (fits_readiness ⟨.orchestrated⟩),
    fits_entry rfl (.table (by simp) ?_), fits_missing rfl, fits_missing rfl, nofun⟩
  simp only [List.forall_mem_cons]
  refine ⟨fits_missing rfl, fits_missing rfl, fits_missing rfl,
    fits_entry rfl (.table (by simp) ?_), fits_missing rfl, nofun⟩
  simp only [List.forall_mem_cons]
  exact ⟨fits_entry rfl (.boolean _), fits_entry rfl (fits_uint64 2), fits_missing rfl, nofun⟩

theorem fits_sparseRestated : Config.shape.Fits sparseRestated := by
  refine .table (by simp) ?_
  simp only [List.forall_mem_cons]
  refine ⟨fits_missing rfl, fits_entry rfl (fits_readiness ⟨.orchestrated⟩),
    fits_entry rfl (.table (by simp) ?_), fits_missing rfl, fits_missing rfl, nofun⟩
  simp only [List.forall_mem_cons]
  refine ⟨fits_missing rfl, fits_missing rfl, fits_missing rfl,
    fits_entry rfl (.table (by simp) ?_), fits_missing rfl, nofun⟩
  simp only [List.forall_mem_cons]
  exact ⟨fits_entry rfl (.boolean _), fits_entry rfl (fits_uint64 2), fits_missing rfl, nofun⟩

theorem restated_sparse : Document.Restated ({} : Config).encode sparse sparseRestated := by
  refine .trans (.inside [_] [] fun _ hSection => ?_)
    (.trans (.order (by decide) (.swap _ _ [])) (.unknown (by decide) _))
  obtain rfl : _ = Admission.encode {} := by simpa [Config.encode] using hSection
  refine .inside [] [] fun _ hSlots => ?_
  obtain rfl : _ = BulkheadSection.encode {} := by simpa [Admission.encode] using hSlots
  exact .order (by decide) (.swap _ _ [])

theorem documents_override_sparse :
    Config.decode? .toml sparse = some
      { readiness.trafficMode := .orchestrated
        admission.bulkhead.enabled := true
        admission.bulkhead.maxConcurrent := 2 } ∧
    Config.decode? .toml sparseRestated = Config.decode? .toml sparse := by
  obtain ⟨c, hDecode, hEncode, hRestated⟩ := documents_override.1 .toml sparse fits_sparse
  have hConfig : c =
      { readiness.trafficMode := .orchestrated
        admission.bulkhead.enabled := true
        admission.bulkhead.maxConcurrent := 2 } := encode_injective hEncode
  refine ⟨hConfig ▸ hDecode, ?_⟩
  rw [hDecode, hRestated _ fits_sparseRestated restated_sparse]

end Gatehouse.Config
