import Gatehouse.Config.Encode
import Gatehouse.Config.Validate
import Mathlib.Data.List.Basic

/-!
# The rules of a configuration

A rule is about one field: what is asked of its value, and which section has to be enabled for
anybody to ask. Whatever else a configuration says, what is reported are the rules that it violates,
each once and in the order of the fields. A field that gets its default value back keeps its rule,
and no other rule is affected.

* `Field.find?_encode`: a field is named by the keys that lead to its value.
* `problems_eq`: what is reported.
* `violated_resetAll`: what is reported once some fields have their default values.
* `violations_reported`: the verdict on every configuration.
-/

namespace Gatehouse

namespace Document

/-- What is found by following some keys through tables inside of tables. -/
def find? (d : Document) : List String → Option Document
  | [] => some d
  | key :: keys =>
    match d.get? key with
    | some inner => inner.find? keys
    | none => none

end Document

namespace Config

/-- A value with what is asked of it. -/
inductive Value where
  /-- The address of a socket. -/
  | address (text : String)
  /-- A number that has to be positive. -/
  | count (n : Nat)
  /-- A name that has to be more than blanks. -/
  | name (text : String)

namespace Value

def Suits : Value → Prop
  | .address text => (SocketAddress.parse? text).isSome = true
  | .count n => 0 < n
  | .name text => ∃ c ∈ text.toList, Text.isBlank c = false

instance : (v : Value) → Decidable v.Suits
  | .address text => instDecidableEqBool (SocketAddress.parse? text).isSome true
  | .count n => Nat.decLt 0 n
  | .name text => List.decidableBEx (fun c => Text.isBlank c = false) text.toList

/-- What is said of a value that does not suit. -/
def complaint : Value → String
  | .address text => "'" ++ text ++ "' is not a socket address"
  | .count _ => "must be greater than 0"
  | .name _ => "must not be empty"

def document : Value → Document
  | .address text => .text text
  | .count n => .integer n
  | .name text => .text text

end Value

/-- A field that there is a rule about. -/
inductive Field where
  | bindAddress
  | requestsPerSecond
  | burstSize
  | maxConcurrent
  | breakerName
  | failureThreshold
  | halfOpenMaxCalls
  | timeoutSecs
  | maxLifetimeSecs
  | metricsAddress
  deriving DecidableEq, Repr

namespace Field

/-- The fields in their order. -/
def all : List Field :=
  [.bindAddress, .requestsPerSecond, .burstSize, .maxConcurrent, .breakerName, .failureThreshold,
    .halfOpenMaxCalls, .timeoutSecs, .maxLifetimeSecs, .metricsAddress]

/-- The keys that lead to a field. -/
def keys : Field → List String
  | .bindAddress => ["listener", "bind_address"]
  | .requestsPerSecond => ["admission", "rate_limit", "requests_per_second"]
  | .burstSize => ["admission", "rate_limit", "burst_size"]
  | .maxConcurrent => ["admission", "bulkhead", "max_concurrent"]
  | .breakerName => ["admission", "circuit_breaker", "name"]
  | .failureThreshold => ["admission", "circuit_breaker", "failure_threshold"]
  | .halfOpenMaxCalls => ["admission", "circuit_breaker", "half_open_max_calls"]
  | .timeoutSecs => ["outbound", "timeout_secs"]
  | .maxLifetimeSecs => ["outbound", "max_lifetime_secs"]
  | .metricsAddress => ["observability", "metrics_address"]

/-- The dotted path of a field, by which problems name it. -/
def path : Field → String
  | .bindAddress => "listener.bind_address"
  | .requestsPerSecond => "admission.rate_limit.requests_per_second"
  | .burstSize => "admission.rate_limit.burst_size"
  | .maxConcurrent => "admission.bulkhead.max_concurrent"
  | .breakerName => "admission.circuit_breaker.name"
  | .failureThreshold => "admission.circuit_breaker.failure_threshold"
  | .halfOpenMaxCalls => "admission.circuit_breaker.half_open_max_calls"
  | .timeoutSecs => "outbound.timeout_secs"
  | .maxLifetimeSecs => "outbound.max_lifetime_secs"
  | .metricsAddress => "observability.metrics_address"

def value (c : Config) : Field → Value
  | .bindAddress => .address c.listener.bindAddress
  | .requestsPerSecond => .count c.admission.rateLimit.requestsPerSecond.toNat
  | .burstSize => .count c.admission.rateLimit.burstSize.toNat
  | .maxConcurrent => .count c.admission.bulkhead.maxConcurrent.toNat
  | .breakerName => .name c.admission.circuitBreaker.name
  | .failureThreshold => .count c.admission.circuitBreaker.failureThreshold.toNat
  | .halfOpenMaxCalls => .count c.admission.circuitBreaker.halfOpenMaxCalls.toNat
  | .timeoutSecs => .count c.outbound.timeoutSecs.toNat
  | .maxLifetimeSecs => .count c.outbound.maxLifetimeSecs.toNat
  | .metricsAddress => .address c.observability.metricsAddress

/-- Whether the section of a field is in use. -/
def isEnabled (c : Config) : Field → Bool
  | .requestsPerSecond | .burstSize => c.admission.rateLimit.enabled
  | .maxConcurrent => c.admission.bulkhead.enabled
  | .breakerName | .failureThreshold | .halfOpenMaxCalls => c.admission.circuitBreaker.enabled
  | .metricsAddress => c.observability.metricsEnabled
  | .bindAddress | .timeoutSecs | .maxLifetimeSecs => true

end Field

/-- The configuration that says nothing. -/
def standard : Config := {}

/-- A configuration with the default value of a field. -/
def reset (c : Config) : Field → Config
  | .bindAddress => { c with listener.bindAddress := standard.listener.bindAddress }
  | .requestsPerSecond =>
    { c with
      admission.rateLimit.requestsPerSecond := standard.admission.rateLimit.requestsPerSecond }
  | .burstSize =>
    { c with admission.rateLimit.burstSize := standard.admission.rateLimit.burstSize }
  | .maxConcurrent =>
    { c with admission.bulkhead.maxConcurrent := standard.admission.bulkhead.maxConcurrent }
  | .breakerName =>
    { c with admission.circuitBreaker.name := standard.admission.circuitBreaker.name }
  | .failureThreshold =>
    { c with
      admission.circuitBreaker.failureThreshold :=
        standard.admission.circuitBreaker.failureThreshold }
  | .halfOpenMaxCalls =>
    { c with
      admission.circuitBreaker.halfOpenMaxCalls :=
        standard.admission.circuitBreaker.halfOpenMaxCalls }
  | .timeoutSecs => { c with outbound.timeoutSecs := standard.outbound.timeoutSecs }
  | .maxLifetimeSecs => { c with outbound.maxLifetimeSecs := standard.outbound.maxLifetimeSecs }
  | .metricsAddress =>
    { c with observability.metricsAddress := standard.observability.metricsAddress }

/-- The same with the default values of several fields. -/
def resetAll (c : Config) (fields : List Field) : Config := fields.foldl reset c

/-- A rule is violated where the section of its field is in use and the value does not suit. -/
def Violates (c : Config) (f : Field) : Prop := f.isEnabled c = true ∧ ¬ (f.value c).Suits

instance (c : Config) (f : Field) : Decidable (c.Violates f) := by
  unfold Violates
  infer_instance

/-- The fields of the violated rules, in their order. -/
def violated (c : Config) : List Field := Field.all.filter (c.Violates ·)

/-- What is reported of a field. -/
def problem (c : Config) (f : Field) : Problem := ⟨f.path, (f.value c).complaint⟩

/-- Two sections that are the same, or both disabled. -/
def SameOrOff {α : Type} (enabled : α → Bool) (x y : α) : Prop :=
  y = x ∨ enabled x = false ∧ enabled y = false

/-- Two configurations that differ in nothing but fields of disabled sections, and in the address
for metrics if there are none. -/
structure SameInUse (c c' : Config) : Prop where
  listener : c'.listener = c.listener
  readiness : c'.readiness = c.readiness
  requestTimeoutMs : c'.admission.requestTimeoutMs = c.admission.requestTimeoutMs
  recoverPanics : c'.admission.recoverPanics = c.admission.recoverPanics
  rateLimit : SameOrOff RateLimit.enabled c.admission.rateLimit c'.admission.rateLimit
  bulkhead : SameOrOff BulkheadSection.enabled c.admission.bulkhead c'.admission.bulkhead
  circuitBreaker : SameOrOff CircuitBreakerSection.enabled c.admission.circuitBreaker
    c'.admission.circuitBreaker
  outbound : c'.outbound = c.outbound
  logLevel : c'.observability.logLevel = c.observability.logLevel
  logFormat : c'.observability.logFormat = c.observability.logFormat
  metricsEnabled : c'.observability.metricsEnabled = c.observability.metricsEnabled
  metricsAddress : c.observability.metricsEnabled = true →
    c'.observability.metricsAddress = c.observability.metricsAddress

namespace SameOrOff

variable {α : Type} {enabled : α → Bool} {x y : α}

theorem enabled_eq (h : SameOrOff enabled x y) : enabled y = enabled x := by
  rcases h with rfl | ⟨hx, hy⟩
  · rfl
  · rw [hx, hy]

theorem eq (h : SameOrOff enabled x y) (hEnabled : enabled x = true) : y = x := by
  rcases h with hSame | ⟨hOff, -⟩
  · exact hSame
  · cases hEnabled.symm.trans hOff

end SameOrOff

variable {c c' : Config} {f g : Field} {fields : List Field}

/-! ## The fields -/

namespace Field

theorem mem_all (f : Field) : f ∈ all := by cases f <;> decide

theorem nodup_all : all.Nodup := by decide

theorem path_eq (f : Field) : f.path = ".".intercalate f.keys := by cases f <;> rfl

theorem nodup_path : (all.map path).Nodup := by decide

/-- The keys of a field lead to its value. -/
theorem find?_encode (c : Config) (f : Field) :
    c.encode.find? f.keys = some (f.value c).document := by
  cases f <;> rfl

/-- Every default value passes its own check. -/
theorem suits_standard (f : Field) : (f.value standard).Suits := by
  cases f <;> decide

/-- The default value of one field leaves the others as they are. -/
theorem value_reset (c : Config) (f g : Field) :
    g.value (c.reset f) = if g = f then g.value standard else g.value c := by
  cases f <;> cases g <;> rfl

theorem isEnabled_reset (c : Config) (f g : Field) :
    g.isEnabled (c.reset f) = g.isEnabled c := by
  cases f <;> cases g <;> rfl

theorem isEnabled_eq (h : SameInUse c c') (f : Field) : f.isEnabled c' = f.isEnabled c := by
  cases f with
  | bindAddress | timeoutSecs | maxLifetimeSecs => rfl
  | requestsPerSecond | burstSize => exact h.rateLimit.enabled_eq
  | maxConcurrent => exact h.bulkhead.enabled_eq
  | breakerName | failureThreshold | halfOpenMaxCalls => exact h.circuitBreaker.enabled_eq
  | metricsAddress => exact h.metricsEnabled

/-- The values of a section that is in use are the same. -/
theorem value_eq (h : SameInUse c c') (hEnabled : f.isEnabled c = true) :
    f.value c' = f.value c := by
  cases f with
  | bindAddress => rw [value, h.listener, value]
  | timeoutSecs | maxLifetimeSecs => rw [value, h.outbound, value]
  | requestsPerSecond | burstSize => rw [value, h.rateLimit.eq hEnabled, value]
  | maxConcurrent => rw [value, h.bulkhead.eq hEnabled, value]
  | breakerName | failureThreshold | halfOpenMaxCalls =>
    rw [value, h.circuitBreaker.eq hEnabled, value]
  | metricsAddress => rw [value, h.metricsAddress hEnabled, value]

end Field

theorem mem_violated : f ∈ c.violated ↔ c.Violates f := by
  simp [violated, Field.mem_all]

/-! ## Fields that get their default values -/

theorem violates_reset : (c.reset f).Violates g ↔ g ≠ f ∧ c.Violates g := by
  unfold Violates
  rw [Field.isEnabled_reset, Field.value_reset]
  split
  · next hSame => simp [hSame, Field.suits_standard]
  · next hNe => simp [hNe]

theorem violates_resetAll : (c.resetAll fields).Violates g ↔ g ∉ fields ∧ c.Violates g := by
  induction fields generalizing c with
  | nil => simp [resetAll]
  | cons f fields ih =>
    have hRest : (c.resetAll (f :: fields)).Violates g ↔ ((c.reset f).resetAll fields).Violates g :=
      Iff.rfl
    rw [hRest, ih, violates_reset, List.mem_cons, not_or]
    tauto

/-- What is said of the other fields stays the same. -/
theorem problem_resetAll (h : g ∉ fields) : (c.resetAll fields).problem g = c.problem g := by
  induction fields generalizing c with
  | nil => rfl
  | cons f fields ih =>
    obtain ⟨hNe, hRest⟩ := not_or.mp (List.mem_cons.not.mp h)
    have hFirst : (c.resetAll (f :: fields)).problem g = (c.reset f).problem g := ih hRest
    rw [hFirst, problem, problem, Field.value_reset, if_neg hNe]

theorem violated_resetAll :
    (c.resetAll fields).violated = c.violated.filter (· ∉ fields) := by
  unfold violated
  rw [List.filter_filter]
  refine List.filter_congr fun g _ => ?_
  rw [Bool.eq_iff_iff, decide_eq_true_iff, violates_resetAll]
  simp

/-! ## What is reported -/

/-- What is reported of a value that is checked. -/
def Value.problems (path : String) (v : Value) : List Problem :=
  if v.Suits then [] else [⟨path, v.complaint⟩]

theorem reportIf_eq {violated : Bool} {v : Value} (h : violated = true ↔ ¬ v.Suits)
    (path : String) : reportIf violated path v.complaint = v.problems path := by
  unfold reportIf Value.problems
  by_cases hSuits : v.Suits
  · rw [if_pos hSuits, if_neg (fun hViolated => h.mp hViolated hSuits)]
  · rw [if_neg hSuits, if_pos (h.mpr hSuits)]

theorem addressProblems_eq (path text : String) :
    addressProblems path text = (Value.address text).problems path := by
  refine reportIf_eq (v := .address text) ?_ path
  rw [Value.Suits, Bool.not_eq_true, Option.isNone_iff_eq_none, Option.isSome_eq_false_iff,
    Option.isNone_iff_eq_none]

theorem positiveProblems_eq (path : String) (n : Nat) :
    positiveProblems path n = (Value.count n).problems path := by
  refine reportIf_eq (v := .count n) ?_ path
  rw [Value.Suits, beq_iff_eq]
  omega

theorem nameProblems_eq (path text : String) :
    reportIf (Text.isBlankText text) path "must not be empty" =
      (Value.name text).problems path := by
  refine reportIf_eq (v := .name text) ?_ path
  simp [Value.Suits, Text.isBlankText]

/-- What is reported of a field. -/
def report (c : Config) (f : Field) : List Problem :=
  if f.isEnabled c then (f.value c).problems f.path else []

theorem report_eq (c : Config) (f : Field) :
    c.report f = if c.Violates f then [c.problem f] else [] := by
  unfold report Value.problems Violates
  by_cases hEnabled : f.isEnabled c = true <;> by_cases hSuits : (f.value c).Suits <;>
    simp [hEnabled, hSuits, problem]

theorem flatMap_report (c : Config) (fields : List Field) :
    fields.flatMap c.report = (fields.filter (c.Violates ·)).map c.problem := by
  induction fields with
  | nil => rfl
  | cons f fields ih =>
    rw [List.flatMap_cons, ih, report_eq, List.filter_cons]
    by_cases hViolates : c.Violates f <;> simp [hViolates]

/-! ### The sections -/

theorem ite_append (enabled : Bool) (ps qs : List Problem) :
    (if enabled then ps ++ qs else []) =
      (if enabled then ps else []) ++ (if enabled then qs else []) := by
  cases enabled <;> rfl

theorem problems_listener (c : Config) : c.listener.problems = c.report .bindAddress :=
  addressProblems_eq _ _

theorem problems_rateLimit (c : Config) :
    c.admission.rateLimit.problems = c.report .requestsPerSecond ++ c.report .burstSize := by
  unfold RateLimit.problems
  rw [positiveProblems_eq, positiveProblems_eq, ite_append]
  rfl

theorem problems_bulkhead (c : Config) :
    c.admission.bulkhead.problems = c.report .maxConcurrent := by
  unfold BulkheadSection.problems
  rw [positiveProblems_eq]
  rfl

theorem problems_circuitBreaker (c : Config) :
    c.admission.circuitBreaker.problems =
      c.report .breakerName ++ (c.report .failureThreshold ++ c.report .halfOpenMaxCalls) := by
  unfold CircuitBreakerSection.problems
  rw [nameProblems_eq, positiveProblems_eq, positiveProblems_eq, ite_append, ite_append]
  rfl

theorem problems_outbound (c : Config) :
    c.outbound.problems = c.report .timeoutSecs ++ c.report .maxLifetimeSecs := by
  unfold Outbound.problems
  rw [positiveProblems_eq, positiveProblems_eq]
  rfl

theorem problems_observability (c : Config) :
    c.observability.problems = c.report .metricsAddress := by
  unfold Observability.problems
  rw [addressProblems_eq]
  rfl

/-- The violated rules are reported, each once and in the order of the fields, and nothing else. -/
theorem problems_eq (c : Config) : c.problems = c.violated.map c.problem := by
  have hAll : Field.all.flatMap c.report = c.violated.map c.problem := flatMap_report c Field.all
  rw [← hAll]
  unfold problems
  rw [problems_listener, problems_rateLimit, problems_bulkhead, problems_circuitBreaker,
    problems_outbound, problems_observability]
  simp [Field.all]

theorem problems_congr (h : SameInUse c c') : c'.problems = c.problems := by
  have hReport : ∀ f, c'.report f = c.report f := by
    intro f
    unfold report
    rw [Field.isEnabled_eq h f]
    split
    · next hEnabled => rw [Field.value_eq h hEnabled]
    · rfl
  rw [problems_eq, problems_eq, violated, violated, ← flatMap_report, ← flatMap_report,
    funext hReport]

theorem validate_eq_ok_iff (c : Config) : c.validate = .ok () ↔ c.violated = [] := by
  rw [← List.map_eq_nil_iff (f := c.problem), ← problems_eq]
  unfold validate
  split
  · next hNone => exact iff_of_true rfl hNone
  · next hSome => exact iff_of_false nofun hSome

theorem validate_eq_error_iff (c : Config) (ps : List Problem) :
    c.validate = .error ps ↔ ps = c.violated.map c.problem ∧ ps ≠ [] := by
  rw [← problems_eq]
  unfold validate
  split
  · next hNone =>
    refine iff_of_false nofun ?_
    rintro ⟨rfl, hSome⟩
    exact hSome hNone
  · next hSome =>
    rw [Except.error.injEq]
    constructor
    · rintro rfl
      exact ⟨rfl, hSome⟩
    · exact fun h => h.1.symm

/-- The rules are about ten fields, which have different paths: each path is made of the keys that
lead to the value of its field. A rule is violated where the section of its field is in use and the
value does not suit. Every configuration is accepted if no rule is violated; otherwise exactly the
violated ones are reported, each once, in the order of the fields. Giving some fields their default
values, in any order, leaves exactly the problems of the other ones: the result is accepted if
every violated field is among them, and only then. What disabled sections say has no influence. -/
theorem violations_reported (c : Config) :
    (Field.all.Nodup ∧ (∀ f, f ∈ Field.all) ∧ (Field.all.map Field.path).Nodup ∧
      ∀ f : Field, f.path = ".".intercalate f.keys ∧
        c.encode.find? f.keys = some (f.value c).document) ∧
    (c.violated.Sublist Field.all ∧
      ∀ f, f ∈ c.violated ↔ f.isEnabled c = true ∧ ¬ (f.value c).Suits) ∧
    (c.validate = .ok () ↔ c.violated = []) ∧
    (∀ ps, c.validate = .error ps ↔ ps = c.violated.map c.problem ∧ ps ≠ []) ∧
    (∀ fields, (c.resetAll fields).problems =
        (c.violated.filter (· ∉ fields)).map c.problem) ∧
    (∀ fields, (c.resetAll fields).validate = .ok () ↔ c.violated ⊆ fields) ∧
    ∀ c', SameInUse c c' → c'.validate = c.validate := by
  refine ⟨⟨Field.nodup_all, Field.mem_all, Field.nodup_path,
    fun f => ⟨f.path_eq, f.find?_encode c⟩⟩, ⟨List.filter_sublist, fun f => mem_violated⟩,
    validate_eq_ok_iff c, validate_eq_error_iff c, ?_, ?_, ?_⟩
  · intro fields
    rw [problems_eq, violated_resetAll]
    refine List.map_congr_left fun f hf => ?_
    exact problem_resetAll (of_decide_eq_true (List.mem_filter.mp hf).2)
  · intro fields
    rw [validate_eq_ok_iff, violated_resetAll, List.filter_eq_nil_iff]
    simp [List.subset_def]
  · intro c' hSame
    unfold validate
    rw [problems_congr hSame]

/-- No address, no slots and no failures allowed; and a rate of zero, which does not matter. -/
def unfit : Config :=
  { listener.bindAddress := "not-an-address"
    admission.rateLimit.requestsPerSecond := 0
    admission.bulkhead.enabled := true
    admission.bulkhead.maxConcurrent := 0
    admission.circuitBreaker.enabled := true
    admission.circuitBreaker.failureThreshold := 0 }

/-- The same with a burst of zero as well. -/
def unfitBurst : Config := { unfit with admission.rateLimit.burstSize := 0 }

theorem violations_reported_unfit :
    unfit.violated = [.bindAddress, .maxConcurrent, .failureThreshold] ∧
    unfit.validate = .error [⟨"listener.bind_address", "'not-an-address' is not a socket address"⟩,
      ⟨"admission.bulkhead.max_concurrent", "must be greater than 0"⟩,
      ⟨"admission.circuit_breaker.failure_threshold", "must be greater than 0"⟩] ∧
    (unfit.resetAll [.failureThreshold, .bindAddress]).problems =
      [⟨"admission.bulkhead.max_concurrent", "must be greater than 0"⟩] ∧
    SameInUse unfit unfitBurst ∧ unfitBurst.validate = unfit.validate := by
  have hViolated : unfit.violated = [.bindAddress, .maxConcurrent, .failureThreshold] := by decide
  have hSame : SameInUse unfit unfitBurst :=
    ⟨rfl, rfl, rfl, rfl, .inr ⟨rfl, rfl⟩, .inl rfl, .inl rfl, rfl, rfl, rfl, rfl, fun _ => rfl⟩
  obtain ⟨-, -, -, hError, hReset, -, hAlike⟩ := violations_reported unfit
  refine ⟨hViolated, (hError _).mpr ⟨?_, nofun⟩, ?_, hSame, hAlike unfitBurst hSame⟩
  · rw [hViolated]
    rfl
  · rw [hReset, hViolated]
    rfl

end Config

end Gatehouse
