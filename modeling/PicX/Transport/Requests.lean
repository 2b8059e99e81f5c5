import Mathlib.Data.List.Perm.Subperm
import PicX.Base.Text
import PicX.Metrics.Counting
import PicX.Metrics.Scrape

/-!
# Naming and measuring requests (`pic-x-transport/src/request.rs`, `measure.rs`)

Every surface runs its handlers under the same two layers. The outer one names the request, with the
name the client gave it if that can be used, and tells the client the name; the inner one times it
and counts how it ended. Requests of all surfaces are served together and answered in any order;
what the handlers answer, and when, is left open, and a client may go before its answer comes.

The headers of a message are a list here, in the order they would be read.

* `RequestId` — a name, with what makes it usable.
* `Process.step` — a request arrives, is answered, or its client is gone.
* `requests_accounted` — **every answer carries the name its handler saw, and is counted once; how
  many series that takes does not depend on the clients.**
-/

namespace PicX.Transport.Requests

open PicX PicX.Metrics

/-! ## Messages -/

/-- The value of a header, as it stands on the wire. -/
abbrev HeaderValue := Bytes

abbrev Headers := List (String × HeaderValue)

/-- The first value of a header. -/
def Headers.get (headers : Headers) (name : String) : Option HeaderValue :=
  (headers.find? fun header => header.1 = name).map Prod.snd

/-- The value takes the place of all there were. -/
def Headers.insert (headers : Headers) (name : String) (value : HeaderValue) : Headers :=
  (headers.filter fun header => header.1 ≠ name) ++ [(name, value)]

def isVisibleAscii (byte : UInt8) : Bool := (32 ≤ byte && byte < 127) || byte = 9

/-- `HeaderValue::to_str`. -/
def toStr (value : HeaderValue) : Option String :=
  if value.all isVisibleAscii then fromUtf8 value else none

/-- `HeaderValue::from_str`. -/
def fromStr (text : String) : Option HeaderValue :=
  if (utf8 text).all isVisibleAscii then some (utf8 text) else none

/-- A status has three digits. -/
abbrev StatusCode := { code : Nat // 100 ≤ code ∧ code < 1000 }

structure Request where
  method : String
  headers : Headers
  deriving DecidableEq

structure Response where
  status : StatusCode
  headers : Headers
  deriving DecidableEq

/-! ## Names -/

/-- The header this reads and writes. -/
def HEADER : String := "x-request-id"

/-- The longest client-supplied identity that will be believed. -/
def MAXIMUM : Nat := 64

def isPlain (byte : UInt8) : Bool :=
  (48 ≤ byte && byte ≤ 57) || (65 ≤ byte && byte ≤ 90) || (97 ≤ byte && byte ≤ 122) ||
    byte = 45 || byte = 95

/-- A short run of plain characters. -/
def Usable (text : String) : Prop :=
  text ≠ "" ∧ (utf8 text).length ≤ MAXIMUM ∧ (utf8 text).all isPlain = true

instance (text : String) : Decidable (Usable text) := by
  unfold Usable
  infer_instance

/-- What a request is called, for as long as it is being served. -/
structure RequestId where
  text : String
  usable : Usable text
  deriving DecidableEq

/-- What the system's generator fills. -/
abbrev Material := { material : Bytes // material.length = 8 }

namespace RequestId

/-- Reads what a client called this request, when what it sent can be used as a name. -/
def fromClient (value : HeaderValue) : Option RequestId := do
  let text ← toStr value
  if h : text = "" ∨ MAXIMUM < (utf8 text).length then none
  else if hplain : (utf8 text).all isPlain = true then
    some ⟨text, (not_or.mp h).1, not_lt.mp (not_or.mp h).2, hplain⟩
  else none

/-- A hex digit is one plain byte. -/
theorem digitChar_plain : ∀ n < 16, ∃ byte, String.utf8EncodeChar (Nat.digitChar n) = [byte] ∧
    isPlain byte = true := by
  intro n hn
  have hdigits : ∀ n < 16, (String.utf8EncodeChar (Nat.digitChar n)).length = 1 ∧
      (String.utf8EncodeChar (Nat.digitChar n)).all isPlain = true := by decide
  obtain ⟨hlength, hplain⟩ := hdigits n hn
  obtain ⟨byte, hbyte⟩ := List.length_eq_one_iff.mp hlength
  rw [hbyte, List.all_cons, Bool.and_eq_true] at hplain
  exact ⟨byte, hbyte, hplain.1⟩

/-- A byte in hex is two plain bytes. -/
theorem hexPair_plain (b : UInt8) : ∃ high low,
    (hexPair b).flatMap String.utf8EncodeChar = [high, low] ∧ isPlain high = true ∧
      isPlain low = true := by
  have hb := b.toNat_lt
  obtain ⟨high, hhigh, hplain⟩ := digitChar_plain (b.toNat / 16) (by omega)
  obtain ⟨low, hlow, hplain'⟩ := digitChar_plain (b.toNat % 16) (by omega)
  exact ⟨high, low, by simp [hexPair, hhigh, hlow], hplain, hplain'⟩

theorem utf8_hex_cons (b : UInt8) (bytes : Bytes) :
    utf8 (hex (b :: bytes)) = (hexPair b).flatMap String.utf8EncodeChar ++ utf8 (hex bytes) := by
  simp [utf8, hex]

theorem hex_plain (bytes : Bytes) : (utf8 (hex bytes)).all isPlain = true := by
  induction bytes with
  | nil => rfl
  | cons b bytes ih =>
    obtain ⟨high, low, hpair, hhigh, hlow⟩ := hexPair_plain b
    rw [utf8_hex_cons, hpair, List.all_append, ih]
    simp [hhigh, hlow]

theorem length_hex (bytes : Bytes) : (utf8 (hex bytes)).length = 2 * bytes.length := by
  induction bytes with
  | nil => rfl
  | cons b bytes ih =>
    obtain ⟨high, low, hpair, -⟩ := hexPair_plain b
    rw [utf8_hex_cons, hpair, List.length_append, ih, List.length_cons]
    simp only [List.length_cons, List.length_nil]
    omega

theorem unnamed_usable : Usable "unnamed" := by decide

theorem hex_usable (material : Material) : Usable (hex material.val) := by
  have hlength := length_hex material.val
  rw [material.property] at hlength
  refine ⟨fun hempty => ?_, by rw [hlength]; decide, hex_plain _⟩
  rw [hempty] at hlength
  cases hlength

/-- Draws a name; without randomness there is one name. -/
def generated (material : Option Material) : RequestId :=
  match material with
  | none => ⟨"unnamed", unnamed_usable⟩
  | some material => ⟨hex material.val, hex_usable material⟩

theorem plain_visible {byte : UInt8} (h : isPlain byte = true) : isVisibleAscii byte = true := by
  simp only [isPlain, isVisibleAscii, Bool.or_eq_true, Bool.and_eq_true, decide_eq_true_eq,
    UInt8.le_iff_toNat_le, UInt8.lt_iff_toNat_lt, ← UInt8.toNat_inj] at h ⊢
  simp at h ⊢
  omega

theorem visible (id : RequestId) : (utf8 id.text).all isVisibleAscii = true :=
  List.all_eq_true.mpr fun byte hbyte =>
    plain_visible (List.all_eq_true.mp id.usable.2.2 byte hbyte)

/-- A client is believed exactly when it sends a usable name. -/
theorem fromClient_eq_some {value : HeaderValue} {id : RequestId} :
    fromClient value = some id ↔ value = utf8 id.text := by
  constructor
  · intro h
    unfold fromClient toStr at h
    obtain ⟨text, htext, h⟩ := Option.bind_eq_some_iff.mp h
    split_ifs at htext
    split_ifs at h
    cases h
    exact (utf8_of_fromUtf8 htext).symm
  · rintro rfl
    have hread : toStr (utf8 id.text) = some id.text := by
      rw [toStr, if_pos id.visible, fromUtf8_utf8]
    obtain ⟨text, hnonempty, hlength, hplain⟩ := id
    have hshort : ¬(text = "" ∨ MAXIMUM < (utf8 text).length) :=
      not_or.mpr ⟨hnonempty, not_lt.mpr hlength⟩
    unfold fromClient
    rw [hread, Option.bind_eq_bind, Option.bind_some, dif_neg hshort, dif_pos hplain]

end RequestId

/-- `Identified::call`: the name of a request. -/
def identify (request : Request) (material : Option Material) : RequestId :=
  ((request.headers.get HEADER).bind RequestId.fromClient).getD (RequestId.generated material)

/-- The name is told back to the client. -/
def tell (id : RequestId) (response : Response) : Response :=
  match fromStr id.text with
  | some value => { response with headers := response.headers.insert HEADER value }
  | none => response

/-! ## Measures -/

/-- Boundaries for a duration, in seconds: each as the `f64` that is nearest to it. -/
def SECONDS : List ℚ :=
  [1152921504606847 / 2 ^ 60, 5764607523034235 / 2 ^ 60, 5764607523034235 / 2 ^ 59,
    3602879701896397 / 2 ^ 57, 3602879701896397 / 2 ^ 56, 3602879701896397 / 2 ^ 55,
    1 / 4, 1 / 2, 1, 5 / 2, 5, 10, 30, 60]

def REQUESTS : Metric ℚ :=
  .counter "picx_surface_requests_total" "Requests answered, by surface, method and status."

def LATENCY : Metric ℚ :=
  .histogram "picx_surface_request_seconds" "How long requests took, by surface and method." SECONDS

/-- Reduces a request method to one of a fixed set. -/
def methodOf (request : Request) : String :=
  match request.method with
  | "GET" => "GET"
  | "POST" => "POST"
  | "PUT" => "PUT"
  | "DELETE" => "DELETE"
  | "HEAD" => "HEAD"
  | "OPTIONS" => "OPTIONS"
  | "PATCH" => "PATCH"
  | "TRACE" => "TRACE"
  | _ => "other"

/-- What a method can be reduced to. -/
def METHODS : List String :=
  ["GET", "POST", "PUT", "DELETE", "HEAD", "OPTIONS", "PATCH", "TRACE", "other"]

theorem methodOf_mem (request : Request) : methodOf request ∈ METHODS := by
  unfold methodOf
  split <;> simp [METHODS]

/-! ## Requests in flight -/

/-- A request that is being served, and what its handler finds on it. -/
structure Serving where
  surface : String
  request : Request
  id : RequestId
  deriving DecidableEq

/-- A request that was answered: what its handler gave, what the client got, and after how long. -/
structure Answer where
  serving : Serving
  given : Response
  response : Response
  elapsed : ℚ
  deriving DecidableEq

/-- The requests in flight on all surfaces, the answers so far, and what was recorded of them. -/
structure Process where
  serving : List Serving := []
  answers : List Answer := []
  registry : Registry := .new

inductive Event where
  | arrives (surface : String) (request : Request) (material : Option Material)
  /-- The handler of a request in flight answers. -/
  | answers (n : Nat) (response : Response) (elapsed : ℚ)
  /-- The client of a request in flight is gone. -/
  | drops (n : Nat)

/-- The labels of a request's latency. -/
def latencyLabels (surface method : String) : List Label :=
  [("surface", surface), ("method", method)]

def requestLabels (surface method : String) (status : StatusCode) : List Label :=
  [("surface", surface), ("method", method), ("status", toString status.val)]

/-- `Measured::call`, once the answer is there. -/
def measure (registry : Registry) (surface method : String) (status : StatusCode) (elapsed : ℚ) :
    Registry :=
  (registry.record LATENCY (latencyLabels surface method) (.finite elapsed)).record REQUESTS
    (requestLabels surface method status) (.finite 1)

def Process.step (p : Process) : Event → Process
  | .arrives surface request material =>
    { p with serving := p.serving ++ [{ surface, request, id := identify request material }] }
  | .answers n response elapsed =>
    match p.serving[n]? with
    | none => p
    | some s =>
      { serving := p.serving.eraseIdx n
        answers := p.answers ++ [{ serving := s, given := response,
                                   response := tell s.id response, elapsed }]
        registry := measure p.registry s.surface (methodOf s.request) response.status elapsed }
  | .drops n => { p with serving := p.serving.eraseIdx n }

def Process.run (events : List Event) : Process := events.foldl Process.step {}

/-! ## What is told -/

/-- The client got the answer of the handler with one more header, the name the handler found on the
request; it is the client's own if it sent a usable one, and it is kept wherever it is sent on. -/
structure Named (a : Answer) : Prop where
  status : a.response.status = a.given.status
  told : a.response.headers.filter (fun header => header.1 = HEADER) =
    [(HEADER, utf8 a.serving.id.text)]
  others : a.response.headers.filter (fun header => header.1 ≠ HEADER) =
    a.given.headers.filter fun header => header.1 ≠ HEADER
  own : ∀ text, Usable text → a.serving.request.headers.get HEADER = some (utf8 text) →
    a.serving.id.text = text
  onward : ∀ (request : Request) material,
    request.headers.get HEADER = some (utf8 a.serving.id.text) →
    identify request material = a.serving.id

theorem identify_of_usable {request : Request} {id : RequestId}
    (h : request.headers.get HEADER = some (utf8 id.text)) (material : Option Material) :
    identify request material = id := by
  rw [identify, h, Option.bind_some, RequestId.fromClient_eq_some.mpr rfl, Option.getD_some]

theorem tell_eq (id : RequestId) (response : Response) : tell id response =
    { response with headers := response.headers.insert HEADER (utf8 id.text) } := by
  rw [tell, fromStr, if_pos id.visible]

/-- Every answer is named by its request. -/
theorem named_tell {s : Serving} {material : Option Material}
    (hid : s.id = identify s.request material) (response : Response) (elapsed : ℚ) :
    Named { serving := s, given := response, response := tell s.id response, elapsed } where
  status := by rw [tell_eq]
  told := by
    rw [tell_eq]
    simp [Headers.insert, List.filter_append, List.filter_filter]
  others := by
    rw [tell_eq]
    simp [Headers.insert, List.filter_append, List.filter_filter]
  own := fun text husable hsent => by
    have hown : identify s.request material = ⟨text, husable⟩ := identify_of_usable hsent material
    rw [hid, hown]
  onward := fun _ material' hsent => identify_of_usable hsent material'

/-! ## What is recorded -/

/-- What an answer is recorded as. -/
def Answer.observations (a : Answer) : List Observation :=
  [⟨LATENCY, latencyLabels a.serving.surface (methodOf a.serving.request), a.elapsed⟩,
    ⟨REQUESTS, requestLabels a.serving.surface (methodOf a.serving.request) a.response.status, 1⟩]

def observationsOf (answers : List Answer) : List Observation := answers.flatMap Answer.observations

theorem observationsOf_concat (answers : List Answer) (a : Answer) :
    observationsOf (answers ++ [a]) = observationsOf answers ++ a.observations := by
  simp [observationsOf]

theorem mem_observationsOf {answers : List Answer} {o : Observation}
    (h : o ∈ observationsOf answers) : o.metric = LATENCY ∨ o.metric = REQUESTS := by
  obtain ⟨a, -, ho⟩ := List.mem_flatMap.mp h
  simp only [Answer.observations, List.mem_cons, List.not_mem_nil, or_false] at ho
  rcases ho with rfl | rfl
  · exact .inl rfl
  · exact .inr rfl

theorem oneDeclaration (answers : List Answer) : OneDeclaration (observationsOf answers) := by
  intro o ho o' ho' hname
  have hne : LATENCY.name ≠ REQUESTS.name := by decide
  rcases mem_observationsOf ho with h | h <;> rcases mem_observationsOf ho' with h' | h' <;>
    rw [h, h'] at hname ⊢
  · exact absurd hname hne
  · exact absurd hname.symm hne

/-- The registry after one more answer. -/
theorem holds_measure {registry : Registry} {answers : List Answer} {a : Answer}
    (h : Metrics.Holds registry (observationsOf answers)) :
    Metrics.Holds (measure registry a.serving.surface (methodOf a.serving.request) a.response.status
      a.elapsed) (observationsOf (answers ++ [a])) := by
  have hone := oneDeclaration (answers ++ [a])
  rw [observationsOf_concat, Answer.observations, List.append_cons] at hone ⊢
  exact (h.record hone.left).record hone

/-- What is known at every moment: requests in flight have their names, answers are named, and the
registry holds what was answered. -/
structure Accounts (surfaces : List String) (p : Process) : Prop where
  serving : ∀ s ∈ p.serving, s.surface ∈ surfaces ∧ ∃ material, s.id = identify s.request material
  answers : ∀ a ∈ p.answers, a.serving.surface ∈ surfaces ∧ Named a
  registry : Metrics.Holds p.registry (observationsOf p.answers)

/-- The request is one to these surfaces. -/
def Event.On (surfaces : List String) : Event → Prop
  | .arrives surface _ _ => surface ∈ surfaces
  | .answers _ _ _ | .drops _ => True

variable {surfaces : List String} {p : Process}

theorem Accounts.step (h : Accounts surfaces p) {event : Event} (hon : event.On surfaces) :
    Accounts surfaces (p.step event) := by
  cases event with
  | arrives surface request material =>
    refine ⟨fun s hs => ?_, h.answers, h.registry⟩
    rcases List.mem_append.mp hs with hold | hnew
    · exact h.serving s hold
    · rw [List.mem_singleton.mp hnew]
      exact ⟨hon, material, rfl⟩
  | answers n response elapsed =>
    unfold Process.step
    dsimp only
    split
    · exact h
    rename_i s hs
    obtain ⟨hsurface, material, hid⟩ := h.serving s (List.mem_of_getElem? hs)
    refine ⟨fun s' hs' => h.serving s' (List.mem_of_mem_eraseIdx hs'), fun a ha => ?_, ?_⟩
    · rcases List.mem_append.mp ha with hold | hnew
      · exact h.answers a hold
      · rw [List.mem_singleton.mp hnew]
        exact ⟨hsurface, named_tell hid response elapsed⟩
    · have hstatus : response.status = (tell s.id response).status := by rw [tell_eq]
      rw [hstatus]
      exact holds_measure (a := ⟨s, response, tell s.id response, elapsed⟩) h.registry
  | drops n =>
    exact ⟨fun s hs => h.serving s (List.mem_of_mem_eraseIdx hs), h.answers, h.registry⟩

theorem run_accounts {events : List Event} (hon : ∀ event ∈ events, event.On surfaces) :
    Accounts surfaces (Process.run events) := by
  induction events using List.reverseRecOn with
  | nil => exact ⟨by simp [Process.run], by simp [Process.run], Metrics.Holds.new⟩
  | append_singleton events event ih =>
    rw [Process.run, List.foldl_append]
    exact (ih fun e he => hon e (List.mem_append_left _ he)).step (hon event (by simp))

/-! ## How many series -/

def latencySeries (surface method : String) : Series :=
  ⟨LATENCY.name, keyed (latencyLabels surface method)⟩

def requestSeries (surface method : String) (status : StatusCode) : Series :=
  ⟨REQUESTS.name, keyed (requestLabels surface method status)⟩

def STATUSES : List StatusCode :=
  (List.finRange 900).map fun i => ⟨100 + i.val, by omega, by omega⟩

theorem mem_STATUSES (status : StatusCode) : status ∈ STATUSES := by
  obtain ⟨code, hlow, hhigh⟩ := status
  refine List.mem_map.mpr ⟨⟨code - 100, by omega⟩, List.mem_finRange _, Subtype.ext ?_⟩
  show 100 + (code - 100) = code
  omega

/-- The series these surfaces can be recorded in: one for each method, and one for each of its
statuses. -/
def seriesOf (surfaces : List String) : List Series :=
  surfaces.flatMap fun surface => METHODS.flatMap fun method =>
    latencySeries surface method :: STATUSES.map (requestSeries surface method)

theorem length_seriesOf (surfaces : List String) :
    (seriesOf surfaces).length = surfaces.length * (METHODS.length * (1 + STATUSES.length)) := by
  unfold seriesOf
  rw [List.length_flatMap]
  simp only [List.length_flatMap, List.length_cons, List.length_map, List.map_const',
    List.sum_replicate_nat, Nat.add_comm]

theorem Accounts.series_mem (h : Accounts surfaces p) {key : Series}
    (hkey : key ∈ p.registry.series) : key ∈ seriesOf surfaces := by
  obtain ⟨o, ho, rfl⟩ := mem_of_mem_admitted ((h.registry.keys key).mp hkey)
  obtain ⟨a, ha, hmem⟩ := List.mem_flatMap.mp ho
  refine List.mem_flatMap.mpr ⟨a.serving.surface, (h.answers a ha).1, ?_⟩
  refine List.mem_flatMap.mpr ⟨methodOf a.serving.request, methodOf_mem _, ?_⟩
  simp only [Answer.observations, List.mem_cons, List.not_mem_nil, or_false] at hmem
  rcases hmem with rfl | rfl
  · exact List.mem_cons_self
  · exact List.mem_cons_of_mem _ (List.mem_map.mpr ⟨_, mem_STATUSES _, rfl⟩)

theorem Accounts.length_series_le (h : Accounts surfaces p) :
    p.registry.series.keys.length ≤ surfaces.length * (9 * 901) := by
  have hsub : p.registry.series.keys ⊆ seriesOf surfaces := fun key hkey => h.series_mem hkey
  have hlength := (p.registry.series.keys_nodup.subperm hsub).length_le
  rwa [length_seriesOf, STATUSES, List.length_map, List.length_finRange] at hlength

/-! ## How many answers -/

/-- Whether an answer is of this kind. -/
def Answer.Counts (surface method : String) (status : StatusCode) (a : Answer) : Prop :=
  a.serving.surface = surface ∧ methodOf a.serving.request = method ∧ a.response.status = status

instance (surface method : String) (status : StatusCode) (a : Answer) :
    Decidable (a.Counts surface method status) := by
  unfold Answer.Counts
  infer_instance

theorem requestSeries_inj {surface surface' method method' : String} {status status' : StatusCode} :
    requestSeries surface method status = requestSeries surface' method' status' ↔
      surface = surface' ∧ method = method' ∧ status = status' := by
  constructor
  · intro heq
    have hperm := keyed_eq_iff.mp (congrArg Series.labels heq)
    have hmem : ∀ l ∈ requestLabels surface method status,
        l ∈ requestLabels surface' method' status' := fun l hl => hperm.subset hl
    simp only [requestLabels, List.mem_cons, List.not_mem_nil, or_false, forall_eq_or_imp,
      Prod.mk.injEq, true_and, String.reduceEq, false_and, or_self, false_or, forall_eq] at hmem
    obtain ⟨hsurface, hmethod, hstatus⟩ := hmem
    exact ⟨hsurface, hmethod, Subtype.ext (toString_injective hstatus)⟩
  · rintro ⟨rfl, rfl, rfl⟩
    rfl

theorem latencySeries_ne {surface surface' method method' : String} {status : StatusCode} :
    latencySeries surface method ≠ requestSeries surface' method' status := by
  intro heq
  have hname : LATENCY.name = REQUESTS.name := congrArg Series.name heq
  exact absurd hname (by decide)

theorem Answer.valuesOf_request (a : Answer) (surface method : String) (status : StatusCode) :
    valuesOf a.observations (requestSeries surface method status) =
      if a.Counts surface method status then [1] else [] := by
  have hlatency : Observation.series ⟨LATENCY,
      latencyLabels a.serving.surface (methodOf a.serving.request), a.elapsed⟩ ≠
        requestSeries surface method status := latencySeries_ne
  have hfilter : (a.observations.filter fun o => o.series = requestSeries surface method status) =
      if a.Counts surface method status then
        [⟨REQUESTS, requestLabels a.serving.surface (methodOf a.serving.request) a.response.status,
          1⟩]
      else [] := by
    rw [Answer.observations, List.filter_cons_of_neg (by simpa using hlatency),
      List.filter_cons, List.filter_nil]
    exact if_congr (decide_eq_true_iff.trans requestSeries_inj) rfl rfl
  rw [valuesOf, hfilter]
  split_ifs <;> rfl

/-- The values in the series of a kind of request: one for each answer of that kind. -/
theorem valuesOf_requests (answers : List Answer) (surface method : String) (status : StatusCode) :
    valuesOf (observationsOf answers) (requestSeries surface method status) =
      List.replicate (answers.countP fun a => a.Counts surface method status) 1 := by
  induction answers with
  | nil => rfl
  | cons a rest ih =>
    have hsplit : valuesOf (observationsOf (a :: rest)) (requestSeries surface method status) =
        valuesOf a.observations (requestSeries surface method status) ++
          valuesOf (observationsOf rest) (requestSeries surface method status) := by
      rw [observationsOf, List.flatMap_cons, valuesOf, List.filter_append, List.map_append]
      rfl
    rw [hsplit, ih, a.valuesOf_request, List.countP_cons]
    by_cases h : a.Counts surface method status
    · simp [h, List.replicate_succ]
    · simp [h]

/-- The counter of a kind of request stands at the number of answers of that kind, as long as the
registry has room. -/
theorem Accounts.counted (h : Accounts surfaces p)
    (hroom : p.registry.series.keys.length < SERIES_CEILING) (surface method : String)
    (status : StatusCode) {n : Nat}
    (hn : p.answers.countP (fun a => a.Counts surface method status) = n) (hpos : 0 < n) :
    p.registry.series.lookup (requestSeries surface method status) =
      some (REQUESTS, .value n) := by
  have hvalues := valuesOf_requests p.answers surface method status
  rw [hn] at hvalues
  -- A value was recorded in the series, and it is one of the counter.
  obtain ⟨o, ho, hseries⟩ : ∃ o ∈ observationsOf p.answers,
      o.series = requestSeries surface method status := by
    have hmem : 1 ∈ valuesOf (observationsOf p.answers) (requestSeries surface method status) := by
      rw [hvalues]
      exact List.mem_replicate.mpr ⟨by omega, rfl⟩
    obtain ⟨o, ho, -⟩ := List.mem_map.mp hmem
    obtain ⟨hobs, hkey⟩ := List.mem_filter.mp ho
    exact ⟨o, hobs, of_decide_eq_true hkey⟩
  have hadmitted : o.series ∈ admitted (observationsOf p.answers) := by
    by_contra hout
    rw [h.registry.length_keys] at hroom
    exact notMem_of_room hroom hout (List.mem_map_of_mem ho)
  have hmetric : o.metric = REQUESTS := by
    have hname : o.metric.name = REQUESTS.name := congrArg Series.name hseries
    rcases mem_observationsOf ho with hm | hm
    · rw [hm] at hname
      exact absurd hname (by decide)
    · exact hm
  rw [← hseries, h.registry.held o ho hadmitted, hseries, hvalues, hmetric,
    heldOf_counter (show REQUESTS.kind = .counter from rfl)]
  simp

/-- **Every request is named, and every answer counted once.** Requests of any clients arrive at
these surfaces and are answered in any order, with anything and after any time, or dropped. Every
answer carries the name its handler saw, which is the client's if it can be used. While the registry
has room, the counter of a kind of request stands at the number of answers of that kind. And the
surfaces take no more series than they have, whatever methods and names the clients send. -/
theorem requests_accounted {events : List Event} (hon : ∀ event ∈ events, event.On surfaces) :
    (∀ a ∈ (Process.run events).answers, Named a) ∧
    ((Process.run events).registry.series.keys.length < SERIES_CEILING →
      ∀ surface method status, 0 < (Process.run events).answers.countP
          (fun a => a.Counts surface method status) →
        (Process.run events).registry.series.lookup (requestSeries surface method status) =
          some (REQUESTS, .value ((Process.run events).answers.countP
            fun a => a.Counts surface method status))) ∧
    (Process.run events).registry.series.keys.length ≤ surfaces.length * (9 * 901) := by
  have h := run_accounts hon
  exact ⟨fun a ha => (h.answers a ha).2,
    fun hroom surface method status hpos => h.counted hroom surface method status rfl hpos,
    h.length_series_le⟩

/-! ### Two clients -/

/-- A client that names its request, and one that makes up its method and a name with a space in it.
The second is answered first. -/
def twoClients : List Event :=
  [.arrives "public" ⟨"GET", [(HEADER, utf8 "trace-1")]⟩ none,
    .arrives "admin" ⟨"BREW", [(HEADER, utf8 "a b")]⟩ (some ⟨[0, 1, 2, 3, 4, 5, 6, 255], rfl⟩),
    .answers 1 ⟨⟨403, by decide⟩, []⟩ (1 / 4),
    .answers 0 ⟨⟨200, by decide⟩, [(HEADER, utf8 "other")]⟩ 2]

theorem requests_accounted_two :
    ((Process.run twoClients).answers.map fun a =>
      (a.serving.id.text, methodOf a.serving.request, a.response.headers)) =
        [("00010203040506ff", "other", [(HEADER, utf8 "00010203040506ff")]),
          ("trace-1", "GET", [(HEADER, utf8 "trace-1")])] ∧
    (∀ a ∈ (Process.run twoClients).answers, Named a) ∧
    (Process.run twoClients).registry.series.keys.length ≤ 2 * (9 * 901) := by
  have hon : ∀ event ∈ twoClients, event.On ["public", "admin"] := by
    simp [twoClients, Event.On]
  obtain ⟨hnamed, -, hseries⟩ := requests_accounted hon
  exact ⟨by decide +kernel, hnamed, hseries⟩

end PicX.Transport.Requests
