import Bindery.Api
import Bindery.Proofs.Json.Structures

/-! # What comes of a response

A response has one of four outcomes, which its status, the decoding of its body and the code of the envelope in
it decide in a fixed order (`Envelope.ofResponse_eq_iff`).  What it means for a body to be an envelope is said
field by field (`Envelope.Decodes`), and the decoder reads exactly such bodies
(`Envelope.decodeWith_eq_ok_iff`). -/

namespace Bindery.Envelope

open Json Json.Decoder

variable {α : Type}

/-! ## Bodies -/

/-- Each field of an envelope has what stands under its name, or its default. -/
structure FilledFrom (payload : Decoder α) (n : Nat) (es : List (String × Tree)) (e : Envelope α) : Prop where
  response : Filled "Response" (payload.option n) es none e.response
  errorCode : Filled "ErrorCode" ((Wire.decode : Decoder Int32) n) es 0 e.errorCode
  throttleSeconds : Filled "ThrottleSeconds" ((Wire.decode : Decoder Int32) n) es 0 e.throttleSeconds
  errorStatus : Filled "ErrorStatus" (Decoder.string n) es "" e.errorStatus
  message : Filled "Message" (Decoder.string n) es "" e.message
  messageData : Filled "MessageData" (Decoder.textDict .string n) es .empty e.messageData
  detailedErrorTrace : Filled "DetailedErrorTrace" (Decoder.string n) es "" e.detailedErrorTrace
  raw : e.raw = []

def fieldNames : List String :=
  ["Response", "ErrorCode", "ThrottleSeconds", "ErrorStatus", "Message", "MessageData", "DetailedErrorTrace"]

/-- A value decodes as an envelope: an object that has none of the fields twice, with anything whole under
other names, or an array of the first fields in their order. -/
inductive Decodes (payload : Decoder α) : Nat → Tree → Envelope α → Prop
  | object {n ms es e} (hentries : Entries ms es)
      (hnodup : ((es.map Prod.fst).filter (· ∈ fieldNames)).Nodup)
      (hwhole : ∀ p ∈ es, p.1 ∉ fieldNames → p.2.isWhole = true) (h : FilledFrom payload n es e) :
      Decodes payload (n + 1) (.object ms) e
  | array {n its ts e} (helements : Elements its ts) (hlength : ts.length ≤ fieldNames.length)
      (h : FilledFrom payload n (fieldNames.zip ts) e) : Decodes payload (n + 1) (.array its) e

/-- The body is the text of a value that decodes as the envelope, and of nothing else. -/
def IsBody (payload : Decoder α) (body : List UInt8) (e : Envelope α) : Prop :=
  ∃ t, read (Utf8.received body) = (t, true) ∧ Decodes payload nesting t e

/-! ## Decoding -/

def slots (payload : Decoder α) : List (Slot (Envelope α)) :=
  [⟨_, "Response", payload.option, response, fun x e => { e with response := x }⟩,
    ⟨_, "ErrorCode", Wire.decode, errorCode, fun x e => { e with errorCode := x }⟩,
    ⟨_, "ThrottleSeconds", Wire.decode, throttleSeconds, fun x e => { e with throttleSeconds := x }⟩,
    ⟨_, "ErrorStatus", .string, errorStatus, fun x e => { e with errorStatus := x }⟩,
    ⟨_, "Message", .string, message, fun x e => { e with message := x }⟩,
    ⟨_, "MessageData", .textDict .string, messageData, fun x e => { e with messageData := x }⟩,
    ⟨_, "DetailedErrorTrace", .string, detailedErrorTrace, fun x e => { e with detailedErrorTrace := x }⟩]

theorem decodeWith_eq (payload : Decoder α) :
    decodeWith payload = struct "Envelope" {} ((slots payload).map Slot.field) := rfl

theorem name_slots (payload : Decoder α) : (slots payload).map Slot.name = fieldNames := rfl

theorem independent_slots (payload : Decoder α) : Independent (slots payload) raw where
  nodup := by rw [name_slots]; decide
  get_set := by simp [slots]
  get_set_of_ne := by simp [slots]
  kept_set := by simp [slots]
  ext := by
    intro s s' hget hkept
    simp only [slots, List.forall_mem_cons] at hget
    obtain ⟨hresponse, hcode, hthrottle, hstatus, hmessage, hdata, htrace, -⟩ := hget
    cases s
    cases s'
    simp_all

theorem fills_iff {payload : Decoder α} {n : Nat} {es : List (String × Tree)} {e : Envelope α} :
    Fills (slots payload) raw n es {} e ↔ FilledFrom payload n es e := by
  constructor
  · rintro ⟨hfilled, hraw⟩
    simp only [slots, List.forall_mem_cons] at hfilled
    obtain ⟨hresponse, hcode, hthrottle, hstatus, hmessage, hdata, htrace, -⟩ := hfilled
    exact ⟨hresponse, hcode, hthrottle, hstatus, hmessage, hdata, htrace, hraw⟩
  · intro h
    refine ⟨?_, h.raw⟩
    simp only [slots, List.forall_mem_cons, List.not_mem_nil, false_implies, implies_true, and_true]
    exact ⟨h.response, h.errorCode, h.throttleSeconds, h.errorStatus, h.message, h.messageData,
      h.detailedErrorTrace⟩

theorem decodeWith_eq_ok_iff {payload : Decoder α} {n : Nat} {t : Tree} {e : Envelope α} :
    decodeWith payload n t = .ok e ↔ Decodes payload n t e := by
  rw [decodeWith_eq, struct_eq_ok_iff (independent_slots payload)]
  constructor
  · intro h
    cases h with
    | object hentries h => exact .object hentries h.nodup h.isWhole (fills_iff.mp h.toFills)
    | array helements hlength h => exact .array helements hlength (fills_iff.mp h)
  · intro h
    cases h with
    | object hentries hnodup hwhole h => exact .object hentries ⟨fills_iff.mpr h, hnodup, hwhole⟩
    | array helements hlength h => exact .array helements hlength (fills_iff.mpr h)

theorem runBytes_eq_ok_iff {payload : Decoder α} {body : List UInt8} {e : Envelope α} :
    (decodeWith payload).runBytes body = .ok e ↔ IsBody payload body e := by
  simp only [runBytes, run_eq_ok_iff, decodeWith_eq_ok_iff, IsBody]

/-! ## Outcomes -/

/-- What can come of a response. -/
inductive Outcome (payload : Decoder α) (operation : String) (r : Http.Response) :
    Except CallError (Envelope α) → Prop
  /-- The body is no envelope, and the status says that the exchange failed. -/
  | failed (hbody : ∀ e, ¬ IsBody payload r.body e) (hstatus : r.status < 200 ∨ 300 ≤ r.status) :
      Outcome payload operation r (.error (.transport (.status r.status r.body)))
  /-- The body is no envelope, though the exchange did not fail. -/
  | garbled {cause} (hbody : ∀ e, ¬ IsBody payload r.body e) (hstatus : 200 ≤ r.status ∧ r.status < 300)
      (hcause : (decodeWith payload).runBytes r.body = .error cause) :
      Outcome payload operation r (.error (.decode operation r.body cause))
  /-- The envelope reports an error, whatever the status and the payload. -/
  | refused {e} (hbody : IsBody payload r.body e) (hcode : e.errorCode ≠ 0 ∧ e.errorCode ≠ 1) :
      Outcome payload operation r
        (.error (.api ⟨e.errorCode, e.errorStatus, e.throttleSeconds, e.message⟩))
  /-- The envelope reports no error, whatever the status. -/
  | answered {e} (hbody : IsBody payload r.body e) (hcode : e.errorCode = 0 ∨ e.errorCode = 1) :
      Outcome payload operation r (.ok { e with raw := r.body })

theorem apiError?_of_isSuccess {e : Envelope α} (h : e.errorCode = 0 ∨ e.errorCode = 1) :
    e.apiError? = none := by
  rw [apiError?, isSuccess, codeNone, codeSuccess]
  rcases h with h | h <;> simp [h]

theorem apiError?_of_not_isSuccess {e : Envelope α} (h : e.errorCode ≠ 0 ∧ e.errorCode ≠ 1) :
    e.apiError? = some ⟨e.errorCode, e.errorStatus, e.throttleSeconds, e.message⟩ := by
  rw [apiError?, isSuccess, codeNone, codeSuccess]
  simp [h.1, h.2]

theorem isSuccess_iff {r : Http.Response} : r.isSuccess = true ↔ 200 ≤ r.status ∧ r.status < 300 := by
  rw [Http.Response.isSuccess, Bool.and_eq_true, decide_eq_true_eq, decide_eq_true_eq]

theorem isSuccess_eq_false_iff {r : Http.Response} :
    r.isSuccess = false ↔ r.status < 200 ∨ 300 ≤ r.status := by
  rw [Bool.eq_false_iff, ne_eq, isSuccess_iff]
  omega

theorem not_isBody_of_error {payload : Decoder α} {body : List UInt8} {cause : DecodeError}
    (h : (decodeWith payload).runBytes body = .error cause) (e : Envelope α) : ¬ IsBody payload body e := by
  intro hbody
  rw [runBytes_eq_ok_iff.mpr hbody] at h
  cases h

theorem exists_error_of_not_isBody {payload : Decoder α} {body : List UInt8}
    (h : ∀ e : Envelope α, ¬ IsBody payload body e) :
    ∃ cause, (decodeWith payload).runBytes body = .error cause := by
  cases hrun : (decodeWith payload).runBytes body with
  | error cause => exact ⟨cause, rfl⟩
  | ok e => exact absurd (runBytes_eq_ok_iff.mp hrun) (h e)

theorem outcome_ofResponse (payload : Decoder α) (operation : String) (r : Http.Response) :
    Outcome payload operation r (ofResponse payload operation r) := by
  rw [ofResponse]
  cases hrun : (decodeWith payload).runBytes r.body with
  | error cause =>
      have hbody := not_isBody_of_error hrun
      cases hstatus : r.isSuccess with
      | true => exact .garbled hbody (isSuccess_iff.mp hstatus) hrun
      | false => exact .failed hbody (isSuccess_eq_false_iff.mp hstatus)
  | ok e =>
      have hbody := runBytes_eq_ok_iff.mp hrun
      by_cases hcode : e.errorCode = 0 ∨ e.errorCode = 1
      · simp only [apiError?_of_isSuccess hcode]
        exact .answered hbody hcode
      · rw [not_or] at hcode
        simp only [apiError?_of_not_isSuccess hcode]
        exact .refused hbody hcode

/-- Every response has exactly one outcome, which depends on its status only where its body is no envelope. -/
theorem ofResponse_eq_iff {payload : Decoder α} {operation : String} {r : Http.Response}
    {x : Except CallError (Envelope α)} :
    ofResponse payload operation r = x ↔ Outcome payload operation r x := by
  constructor
  · rintro rfl
    exact outcome_ofResponse payload operation r
  · intro h
    cases h with
    | failed hbody hstatus =>
        obtain ⟨cause, hcause⟩ := exists_error_of_not_isBody hbody
        rw [ofResponse, hcause]
        simp only [isSuccess_eq_false_iff.mpr hstatus, Bool.false_eq_true, if_false]
    | garbled hbody hstatus hcause =>
        rw [ofResponse, hcause]
        simp only [isSuccess_iff.mpr hstatus, if_true]
    | refused hbody hcode =>
        rw [ofResponse, runBytes_eq_ok_iff.mpr hbody]
        simp only [apiError?_of_not_isSuccess hcode]
    | answered hbody hcode =>
        rw [ofResponse, runBytes_eq_ok_iff.mpr hbody]
        simp only [apiError?_of_isSuccess hcode]

end Bindery.Envelope
