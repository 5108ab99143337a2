import Gatehouse.Config.Decode
import Gatehouse.Config.Encode
import Gatehouse.Proofs.Toml.Ranges
import Gatehouse.Proofs.Toml.Writing

/-!
# The numbers of a configuration in TOML

Ten fields of a configuration hold any number of 64 bits. A TOML text can say those that fit into
64 bits with a sign, so a configuration may hold numbers that no file can give it.

* `wideNumbers`: the values of these fields.
* `wideNumbers_of_decode?`: where a document has its integers in range, so have they.
* `writable_encode`: where they are in range, the configuration can be written as TOML.
-/

namespace Gatehouse.Config

open Toml (Bare InRange Keys Writable isBareKeyChar)

def Listener.wideNumbers (c : Listener) : List UInt64 := [c.drainTimeoutSecs]

def BulkheadSection.wideNumbers (c : BulkheadSection) : List UInt64 :=
  [c.maxConcurrent, c.acquireTimeoutMs]

def CircuitBreakerSection.wideNumbers (c : CircuitBreakerSection) : List UInt64 :=
  [c.openIntervalMs, c.windowMs]

def Admission.wideNumbers (c : Admission) : List UInt64 :=
  c.requestTimeoutMs :: (c.bulkhead.wideNumbers ++ c.circuitBreaker.wideNumbers)

def Outbound.wideNumbers (c : Outbound) : List UInt64 :=
  [c.timeoutSecs, c.maxIdlePerHost, c.idleTimeoutSecs, c.maxLifetimeSecs]

/-- The fields that hold any number of 64 bits. -/
def wideNumbers (c : Config) : List UInt64 :=
  c.listener.wideNumbers ++ c.admission.wideNumbers ++ c.outbound.wideNumbers

/-! ## What is decoded -/

section Decoding

variable {α : Type} {P : α → Prop} {read : Document → Option α} {default : α}

/-- What the default has, and what is read from a document in range. -/
structure Ranged (P : α → Prop) (read : Document → Option α) (default : α) : Prop where
  default : P default
  read : ∀ {d a}, InRange d → read d = some a → P a

theorem view?_inRange {dialect : Dialect} {fields : List String} {d : Document} {v : View}
    (hd : InRange d) (h : view? dialect fields d = some v) {name : String} {e : Document}
    (hField : v name = some e) : InRange e := by
  unfold view? at h
  split at h
  · cases h
    obtain ⟨entry, hFind, rfl⟩ := Option.map_eq_some_iff.mp hField
    cases hd with
    | table hEntries => exact hEntries entry (List.mem_of_find?_eq_some hFind)
  · cases h
    cases hField
  · split at h
    · cases h
      cases hd with
      | list hItems => exact hItems e (List.mem_of_getElem? hField)
    · cases h
  · cases h

theorem Ranged.field (h : Ranged P read default) {dialect : Dialect} {fields : List String}
    {d : Document} {v : View} (hd : InRange d) (hView : view? dialect fields d = some v)
    {name : String} {a : α} (hField : v.field? name read default = some a) : P a := by
  unfold View.field? at hField
  split at hField
  · next hGiven => exact h.read (view?_inRange hd hView hGiven) hField
  · cases hField
    exact h.default

/-- A number that fits into 64 bits with a sign. -/
def Narrow (n : UInt64) : Prop := n.toNat < 2 ^ 63

instance : DecidablePred Narrow := fun n => inferInstanceAs (Decidable (n.toNat < 2 ^ 63))

theorem ranged_uint64 {n : UInt64} (h : Narrow n) : Ranged Narrow uint64? n := by
  refine ⟨h, fun {d m} hd hRead => ?_⟩
  obtain ⟨k, hNat, rfl⟩ := Option.map_eq_some_iff.mp hRead
  unfold natBelow? at hNat
  split at hNat
  · next i =>
    split_ifs at hNat
    cases hNat
    cases hd with
    | integer hLow hHigh =>
      have hSmall : i.toNat < UInt64.size := by
        rw [UInt64.size]
        omega
      rw [Narrow, UInt64.toNat_ofNat_of_lt' hSmall]
      omega
  · cases hNat

variable (dialect : Dialect)

theorem ranged_listener :
    Ranged (fun c : Listener => ∀ n ∈ c.wideNumbers, Narrow n) (Listener.decode? dialect) {} := by
  refine ⟨by simp [Listener.wideNumbers, Narrow], fun {d c} hd h => ?_⟩
  simp only [Listener.decode?, Option.bind_eq_bind, Option.bind_eq_some_iff] at h
  obtain ⟨v, hView, bind, hBind, drain, hDrain, hSame⟩ := h
  cases hSame
  exact List.forall_mem_singleton.mpr ((ranged_uint64 (by decide)).field hd hView hDrain)

theorem ranged_bulkhead :
    Ranged (fun c : BulkheadSection => ∀ n ∈ c.wideNumbers, Narrow n)
      (BulkheadSection.decode? dialect) {} := by
  refine ⟨by simp [BulkheadSection.wideNumbers, Narrow], fun {d c} hd h => ?_⟩
  simp only [BulkheadSection.decode?, Option.bind_eq_bind, Option.bind_eq_some_iff] at h
  obtain ⟨v, hView, enabled, -, slots, hSlots, wait, hWait, hSame⟩ := h
  cases hSame
  simp only [BulkheadSection.wideNumbers, List.forall_mem_cons]
  exact ⟨(ranged_uint64 (by decide)).field hd hView hSlots,
    (ranged_uint64 (by decide)).field hd hView hWait, nofun⟩

theorem ranged_circuitBreaker :
    Ranged (fun c : CircuitBreakerSection => ∀ n ∈ c.wideNumbers, Narrow n)
      (CircuitBreakerSection.decode? dialect) {} := by
  refine ⟨by simp [CircuitBreakerSection.wideNumbers, Narrow], fun {d c} hd h => ?_⟩
  simp only [CircuitBreakerSection.decode?, Option.bind_eq_bind, Option.bind_eq_some_iff] at h
  obtain ⟨v, hView, enabled, -, name, -, failures, -, interval, hInterval, trials, -, window,
    hWindow, hSame⟩ := h
  cases hSame
  simp only [CircuitBreakerSection.wideNumbers, List.forall_mem_cons]
  exact ⟨(ranged_uint64 (by decide)).field hd hView hInterval,
    (ranged_uint64 (by decide)).field hd hView hWindow, nofun⟩

theorem ranged_admission :
    Ranged (fun c : Admission => ∀ n ∈ c.wideNumbers, Narrow n) (Admission.decode? dialect) {} := by
  refine ⟨by simp [Admission.wideNumbers, BulkheadSection.wideNumbers,
    CircuitBreakerSection.wideNumbers, Narrow], fun {d c} hd h => ?_⟩
  simp only [Admission.decode?, Option.bind_eq_bind, Option.bind_eq_some_iff] at h
  obtain ⟨v, hView, limit, hLimit, recovers, -, rate, -, slots, hSlots, breaker, hBreaker, hSame⟩ :=
    h
  cases hSame
  simp only [Admission.wideNumbers, List.forall_mem_cons, List.forall_mem_append]
  exact ⟨(ranged_uint64 (by decide)).field hd hView hLimit,
    (ranged_bulkhead dialect).field hd hView hSlots,
    (ranged_circuitBreaker dialect).field hd hView hBreaker⟩

theorem ranged_outbound :
    Ranged (fun c : Outbound => ∀ n ∈ c.wideNumbers, Narrow n) (Outbound.decode? dialect) {} := by
  refine ⟨by simp [Outbound.wideNumbers, Narrow], fun {d c} hd h => ?_⟩
  simp only [Outbound.decode?, Option.bind_eq_bind, Option.bind_eq_some_iff] at h
  obtain ⟨v, hView, limit, hLimit, idle, hIdle, idleTime, hIdleTime, lifetime, hLifetime, hSame⟩ :=
    h
  cases hSame
  simp only [Outbound.wideNumbers, List.forall_mem_cons]
  exact ⟨(ranged_uint64 (by decide)).field hd hView hLimit,
    (ranged_uint64 (by decide)).field hd hView hIdle,
    (ranged_uint64 (by decide)).field hd hView hIdleTime,
    (ranged_uint64 (by decide)).field hd hView hLifetime, nofun⟩

/-- A document in range gives no number that is out of range. -/
theorem wideNumbers_of_decode? {d : Document} {c : Config} (hd : InRange d)
    (h : Config.decode? dialect d = some c) : ∀ n ∈ c.wideNumbers, Narrow n := by
  simp only [Config.decode?, Option.bind_eq_bind, Option.bind_eq_some_iff] at h
  obtain ⟨v, hView, listener, hListener, readiness, -, admission, hAdmission, outbound, hOutbound,
    observability, -, hSame⟩ := h
  cases hSame
  simp only [wideNumbers, List.forall_mem_append]
  exact ⟨⟨(ranged_listener dialect).field hd hView hListener,
    (ranged_admission dialect).field hd hView hAdmission⟩,
    (ranged_outbound dialect).field hd hView hOutbound⟩

end Decoding

/-! ## What is written -/

theorem writable_uint64 {k : Nat} {n : UInt64} (h : Narrow n) : Writable k (ofUInt64 n) :=
  .integer h

theorem writable_uint32 (k : Nat) (n : UInt32) : Writable k (ofUInt32 n) :=
  .integer (Nat.lt_trans n.toNat_lt_size (by decide))

variable (k : Nat)

theorem writable_listener {c : Listener} (h : ∀ n ∈ c.wideNumbers, Narrow n) :
    Writable (k + 1) c.encode := by
  have hKeys : Keys ["bind_address", "drain_timeout_secs"] :=
    ⟨by simp [Bare, isBareKeyChar], by decide⟩
  simp only [Listener.wideNumbers, List.forall_mem_cons] at h
  refine .table hKeys ?_
  simp only [List.forall_mem_cons]
  exact ⟨.text _, writable_uint64 h.1, nofun⟩

theorem writable_readiness (c : Readiness) : Writable (k + 1) c.encode := by
  have hKeys : Keys ["traffic_mode"] := ⟨by simp [Bare, isBareKeyChar], by decide⟩
  refine .table hKeys ?_
  simp only [List.forall_mem_cons]
  exact ⟨.text _, nofun⟩

theorem writable_rateLimit (c : RateLimit) : Writable (k + 1) c.encode := by
  have hKeys : Keys ["enabled", "requests_per_second", "burst_size"] :=
    ⟨by simp [Bare, isBareKeyChar], by decide⟩
  refine .table hKeys ?_
  simp only [List.forall_mem_cons]
  exact ⟨.boolean _, writable_uint32 k _, writable_uint32 k _, nofun⟩

theorem writable_bulkhead {c : BulkheadSection} (h : ∀ n ∈ c.wideNumbers, Narrow n) :
    Writable (k + 1) c.encode := by
  have hKeys : Keys ["enabled", "max_concurrent", "acquire_timeout_ms"] :=
    ⟨by simp [Bare, isBareKeyChar], by decide⟩
  simp only [BulkheadSection.wideNumbers, List.forall_mem_cons] at h
  obtain ⟨hSlots, hWait, -⟩ := h
  refine .table hKeys ?_
  simp only [List.forall_mem_cons]
  exact ⟨.boolean _, writable_uint64 hSlots, writable_uint64 hWait, nofun⟩

theorem writable_circuitBreaker {c : CircuitBreakerSection} (h : ∀ n ∈ c.wideNumbers, Narrow n) :
    Writable (k + 1) c.encode := by
  have hKeys : Keys ["enabled", "name", "failure_threshold", "open_interval_ms",
      "half_open_max_calls", "window_ms"] := ⟨by simp [Bare, isBareKeyChar], by decide⟩
  simp only [CircuitBreakerSection.wideNumbers, List.forall_mem_cons] at h
  obtain ⟨hInterval, hWindow, -⟩ := h
  refine .table hKeys ?_
  simp only [List.forall_mem_cons]
  exact ⟨.boolean _, .text _, writable_uint32 k _, writable_uint64 hInterval, writable_uint32 k _,
    writable_uint64 hWindow, nofun⟩

theorem writable_admission {c : Admission} (h : ∀ n ∈ c.wideNumbers, Narrow n) :
    Writable (k + 2) c.encode := by
  have hKeys : Keys ["request_timeout_ms", "recover_panics", "rate_limit", "bulkhead",
      "circuit_breaker"] := ⟨by simp [Bare, isBareKeyChar], by decide⟩
  simp only [Admission.wideNumbers, List.forall_mem_cons, List.forall_mem_append] at h
  obtain ⟨hLimit, hSlots, hBreaker⟩ := h
  refine .table hKeys ?_
  simp only [List.forall_mem_cons]
  exact ⟨writable_uint64 hLimit, .boolean _, writable_rateLimit k _, writable_bulkhead k hSlots,
    writable_circuitBreaker k hBreaker, nofun⟩

theorem writable_outbound {c : Outbound} (h : ∀ n ∈ c.wideNumbers, Narrow n) :
    Writable (k + 1) c.encode := by
  have hKeys : Keys ["timeout_secs", "max_idle_per_host", "idle_timeout_secs",
      "max_lifetime_secs"] := ⟨by simp [Bare, isBareKeyChar], by decide⟩
  simp only [Outbound.wideNumbers, List.forall_mem_cons] at h
  obtain ⟨hLimit, hIdle, hIdleTime, hLifetime, -⟩ := h
  refine .table hKeys ?_
  simp only [List.forall_mem_cons]
  exact ⟨writable_uint64 hLimit, writable_uint64 hIdle, writable_uint64 hIdleTime,
    writable_uint64 hLifetime, nofun⟩

theorem writable_observability (c : Observability) : Writable (k + 1) c.encode := by
  have hKeys : Keys ["log_level", "log_format", "metrics_enabled", "metrics_address"] :=
    ⟨by simp [Bare, isBareKeyChar], by decide⟩
  refine .table hKeys ?_
  simp only [List.forall_mem_cons]
  exact ⟨.text _, .text _, .boolean _, .text _, nofun⟩

/-- A configuration whose numbers are in range can be written. -/
theorem writable_encode {c : Config} (h : ∀ n ∈ c.wideNumbers, Narrow n) :
    Writable (k + 3) c.encode := by
  have hKeys : Keys ["listener", "readiness", "admission", "outbound", "observability"] :=
    ⟨by simp [Bare, isBareKeyChar], by decide⟩
  simp only [wideNumbers, List.forall_mem_append] at h
  obtain ⟨⟨hListener, hAdmission⟩, hOutbound⟩ := h
  refine .table hKeys ?_
  simp only [List.forall_mem_cons]
  exact ⟨writable_listener (k + 1) hListener, writable_readiness (k + 1) _,
    writable_admission k hAdmission, writable_outbound (k + 1) hOutbound,
    writable_observability (k + 1) _, nofun⟩

end Gatehouse.Config
