import Gatehouse.Outbound.TransportError

/-!
# Classes of errors inside of further layers

An error that travels upwards is put into further errors, of which none is recognised itself. A
layer that has the error as its source does not change its class. An I/O error that is built around
the error shows the sources of the error as its own and hides the error itself. The class is kept
there if the sources alone give it, or if the error is the expiry of a connection, which is looked
for inside of the layer as well; otherwise it is lost.

* `TransportError.classify_eq`: the error itself comes before its sources.
* `Layer`: what is put around an error; `Layer.Shows`: the class can be told from outside of it.
* `classify_put_iff`: exactly then it is kept, and whatever is put around the layer keeps it too.
-/

namespace Gatehouse.Outbound

namespace TransportError

def isExpiry : TransportError → Bool
  | .expired _ => true
  | _ => false

/-- The class that the sources of an error give without the error itself. -/
def sourcesClass (e : TransportError) : FailureClass :=
  (e.chain.tail.findSome? recognise?).getD .permanent

theorem chain_eq (e : TransportError) : e.chain = e :: e.chain.tail := by
  cases e <;> rfl

/-- The error itself is looked at first, then its sources. -/
theorem classify_eq (e : TransportError) : e.classify = e.recognise?.getD e.sourcesClass := by
  rw [classify, chain_eq, List.findSome?_cons]
  cases e.recognise? <;> rfl

theorem classify_of_unrecognised {e : TransportError} (h : e.recognise? = none) :
    e.classify = e.sourcesClass := by
  rw [classify_eq, h]
  rfl

theorem recognise?_ioAround (kind : IoKind) (e : TransportError) :
    (ioAround kind e).recognise? =
      if e.isExpiry then some .expired else kind.transient?.map .transient := by
  cases e <;> rfl

theorem classify_of_isExpiry {e : TransportError} (h : e.isExpiry = true) :
    e.classify = .expired := by
  cases e with
  | expired expiry => rfl
  | io | ioAround | exchange | exchangeOver | plain | wrapped => cases h

end TransportError

open TransportError

/-- A layer that is put around an error and is not recognised itself. -/
inductive Layer where
  /-- A plain error that has the other one as its source. -/
  | above (message : String)
  /-- An I/O error that is built around the other one. -/
  | around (kind : IoKind) (unrecognised : kind.transient? = none)

namespace Layer

variable {e : TransportError}

def put : Layer → TransportError → TransportError
  | .above message, e => .wrapped message e
  | .around kind _, e => .ioAround kind e

/-- The class of an error can be told from outside of a layer. -/
def Shows : Layer → TransportError → Prop
  | .above _, _ => True
  | .around _ _, e => e.isExpiry = true ∨ e.classify = e.sourcesClass

theorem shows_of_unrecognised (h : e.recognise? = none) (layer : Layer) : layer.Shows e := by
  cases layer with
  | above message => trivial
  | around kind _ => exact .inr (classify_of_unrecognised h)

/-- A layer is not recognised itself, except for an expiry right inside of it. -/
theorem unrecognised_put (h : e.isExpiry = false) (layer : Layer) :
    (layer.put e).recognise? = none := by
  cases layer with
  | above message => rfl
  | around kind hKind =>
    rw [put, recognise?_ioAround, h, hKind]
    rfl

theorem isExpiry_put (layer : Layer) (e : TransportError) : (layer.put e).isExpiry = false := by
  cases layer <;> rfl

theorem classify_around {kind : IoKind} (h : kind.transient? = none) (e : TransportError) :
    (ioAround kind e).classify = if e.isExpiry then .expired else e.sourcesClass := by
  have hSources : (ioAround kind e).sourcesClass = e.sourcesClass := rfl
  rw [classify_eq, recognise?_ioAround, h, hSources]
  cases e.isExpiry <;> rfl

theorem classify_put (layer : Layer) (e : TransportError) :
    (layer.put e).classify = e.classify ↔ layer.Shows e := by
  cases layer with
  | above message => exact ⟨fun _ => trivial, fun _ => rfl⟩
  | around kind hKind =>
    rw [put, classify_around hKind, Shows]
    cases hExpiry : e.isExpiry with
    | true => simp [classify_of_isExpiry hExpiry]
    | false => simp [eq_comm]

/-- Around an error that is not recognised itself any number of layers keep the class. -/
theorem classify_puts (h : e.recognise? = none) (hExpiry : e.isExpiry = false)
    (layers : List Layer) :
    (layers.foldr put e).classify = e.classify ∧ (layers.foldr put e).recognise? = none ∧
      (layers.foldr put e).isExpiry = false := by
  induction layers with
  | nil => exact ⟨rfl, h, hExpiry⟩
  | cons layer layers ih =>
    obtain ⟨hClass, hNone, hNot⟩ := ih
    rw [List.foldr_cons]
    refine ⟨?_, unrecognised_put hNot layer, isExpiry_put layer _⟩
    exact ((classify_put layer _).mpr (shows_of_unrecognised hNone layer)).trans hClass

end Layer

/-- A layer keeps the class of an error exactly if that can be told from outside, which is the case
for every error that is not recognised itself. Nothing that is put around the layer changes what is
told, unless it is an expiry that is right inside of the first layer. -/
theorem classify_put_iff (layer : Layer) (e : TransportError) :
    ((layer.put e).classify = e.classify ↔ layer.Shows e) ∧
    (e.recognise? = none → layer.Shows e) ∧
    (e.isExpiry = false → ∀ outer : List Layer,
      (outer.foldr Layer.put (layer.put e)).classify = (layer.put e).classify) := by
  refine ⟨layer.classify_put e, fun h => layer.shows_of_unrecognised h, fun hExpiry outer => ?_⟩
  exact (Layer.classify_puts (layer.unrecognised_put hExpiry) (layer.isExpiry_put e) outer).1

/-- Below another error a connection that was reset is seen from outside of an I/O error; right
inside of it, it is not. -/
theorem classify_put_iff_reset :
    ((Layer.around .other rfl).put (.wrapped "connect" (.io .connectionReset))).classify =
      .transient .connectionReset ∧
    ¬ (Layer.around .other rfl).Shows (.io .connectionReset) := by
  obtain ⟨hKept, hShows, -⟩ :=
    classify_put_iff (.around .other rfl) (.wrapped "connect" (.io .connectionReset))
  refine ⟨hKept.mpr (hShows rfl), fun hSeen => ?_⟩
  have hClass := (classify_put_iff (.around .other rfl) (.io .connectionReset)).1.mpr hSeen
  cases hClass

/-- A connection that was reset is worth another attempt, but not inside of another I/O error. -/
theorem not_always_kept :
    (¬ ∀ (layer : Layer) (e : TransportError), (layer.put e).classify = e.classify) ∧
    (TransportError.io .connectionReset).classify = .transient .connectionReset ∧
    ((Layer.around .other rfl).put (.io .connectionReset)).classify = .permanent := by
  refine ⟨fun hAlways => ?_, rfl, rfl⟩
  have hSame := hAlways (.around .other rfl) (.io .connectionReset)
  cases hSame

end Gatehouse.Outbound
