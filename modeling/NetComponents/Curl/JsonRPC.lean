import NetComponents.Curl.Transfer
import NetComponents.Scgi.Response

/-!
# JSON-RPC over HTTP

A call is a transfer that posts a request, collects the reply, and reads it in `done`, before the
handler is told. The object can be run again, but its handle is attached only once. The json
library, what libcurl knows about the reply, and the texts of its errors are parameters.
-/

namespace NetComponents.Curl

open Library
open Scgi (Json)

/-- What `CURLINFO_RESPONSE_CODE` and `CURLINFO_CONTENT_TYPE` give, if they give anything. -/
structure Info where
  code : Option ℤ
  type : Option String
  deriving DecidableEq, Repr

/-- `HttpRequest::responseCode`, as the `int` that `JsonRPC::parse` makes of it. -/
def Info.responseCode (info : Info) : Int32 := Int32.ofInt (info.code.getD 0)

/-- `HttpRequest::contentType`; a null pointer makes the constructor of the string throw. -/
def Info.contentType (info : Info) : String := info.type.getD ""

def CURLE_WEIRD_SERVER_REPLY : ℤ := 8

/-- `createId`, for the object with the number `n` -/
def Easy.createId (n : ℕ) : UInt64 := UInt64.ofNat (10000000 + n)

theorem Easy.createId_inj {m n : ℕ} (hm : m < 2 ^ 64) (hn : n < 2 ^ 64) :
    createId m = createId n ↔ m = n := by
  constructor
  · intro h
    have hmod := congrArg UInt64.toNat h
    simp only [createId, UInt64.toNat_ofNat'] at hmod
    omega
  · rintro rfl
    rfl

/-- `id_`, and the members of `HttpRequest` and `JsonRPC` -/
structure JsonRPC where
  id : UInt64
  method : String
  params : Json
  version : String := "2.0"
  headers : List String := []
  buffer : Bytes := []
  result : Json := .null
  error : Json := .null
  successed : Bool := false

namespace JsonRPC

/-- The json library, and `curl_easy_strerror`. A text that is not valid UTF-8 has no dump. -/
structure Codec where
  parse : Bytes → Except String Json
  dump : Json → Option Bytes
  strerror : ℤ → String

/-- `is_number()` -/
def isNumber : Json → Bool
  | .integer _ => true
  | .float _ => true
  | _ => false

/-- Comparison of a number with a `size_t`: a negative one is compared with the signed value. -/
def equalsId (j : Json) (id : UInt64) : Bool :=
  match j with
  | .integer value => if value < 0 then value = id.toInt64.toInt else value = id.toNat
  | .float bits => Float.ofBits bits == id.toFloat
  | _ => false

/-- Comparison with a string -/
def equalsString (j : Json) (s : String) : Bool :=
  match j with
  | .string value => value = s
  | _ => false

def request (rpc : JsonRPC) : Json :=
  let req := ((Json.null.set "id" (.integer rpc.id.toNat)).set "jsonrpc"
    (.string rpc.version)).set "method" (.string rpc.method)
  if rpc.params.isNull then req else req.set "params" rpc.params

/-- `parse`, from the search for the result and the error on -/
def take (rpc : JsonRPC) (resp : Json) : Except String JsonRPC :=
  match resp.find "result", resp.find "error" with
  | some _, some _ => .error "ambiguous JSON-RPC response object: result and error"
  | none, some error =>
    if error.isNull then .error "bad JSON-RPC error object" else .ok { rpc with error := error }
  | some result, none => .ok { rpc with result := result, successed := true }
  | none, none => .error "bad JSON-RPC response: no result or error"

section Steps

variable (codec : Codec)

def parse (rpc : JsonRPC) (info : Info) (source : Bytes) : Except String JsonRPC :=
  if info.responseCode ≠ 200 then
    .error ("bad HTTP response code: " ++ toString info.responseCode.toInt)
  else if info.contentType ≠ "application/json" then .error "invalid Content-Type"
  else
    match codec.parse source with
    | .error what => .error what
    | .ok resp =>
      match resp.find "jsonrpc" with
      | none => .error "can't find JSON-RPC version"
      | some jrpcvers =>
        if !equalsString jrpcvers rpc.version then .error "bad JSON-RPC version"
        else
          match resp.find "id" with
          | none => .error "can't find JSON-RPC id"
          | some jrpcid =>
            if !isNumber jrpcid || !equalsId jrpcid rpc.id then .error "invalid JSON-RPC id"
            else rpc.take resp

/-- `done`, up to the call of `Transfer::done` with its arguments -/
def done (rpc : JsonRPC) (error : ℤ) (info : Info) : JsonRPC × ℤ × String :=
  if error = 0 then
    match rpc.parse codec info rpc.buffer with
    | .ok rpc' => (rpc', error, codec.strerror error)
    | .error what => (rpc, CURLE_WEIRD_SERVER_REPLY, what)
  else (rpc, error, codec.strerror error)

/-- `contentType(value)` -/
def addContentType (rpc : JsonRPC) (content : String) : JsonRPC :=
  { rpc with headers := rpc.headers ++ ["Content-Type: " ++ content] }

end Steps

/-- What an object knows of its call: `result_`, `error_` and `successed_`. -/
structure Outcome where
  result : Json
  error : Json
  successed : Bool

def Outcome.blank : Outcome := ⟨.null, .null, false⟩

def outcome (rpc : JsonRPC) : Outcome := ⟨rpc.result, rpc.error, rpc.successed⟩

/-- How an exchange has ended: the code of its DONE message, and the reply. -/
structure Reply where
  result : ℤ
  info : Info
  body : Bytes

/-- The reply is a JSON-RPC response to the call with this version and id. -/
structure Reply.Responds (codec : Codec) (version : String) (id : UInt64) (r : Reply)
    (response : Json) : Prop where
  code : r.info.responseCode = 200
  type : r.info.contentType = "application/json"
  body : codec.parse r.body = .ok response
  version : response.find "jsonrpc" = some (.string version)
  id : ∃ value, response.find "id" = some value ∧ isNumber value = true ∧ equalsId value id = true

/-- What a response tells: it has either a result or an error, and the error is not null. -/
inductive Tells (response : Json) : Outcome → Prop where
  | result (value : Json) (hvalue : response.find "result" = some value)
      (herror : response.find "error" = none) : Tells response ⟨value, .null, true⟩
  | error (value : Json) (hvalue : response.find "error" = some value)
      (hnull : value.isNull = false) (hresult : response.find "result" = none) :
      Tells response ⟨.null, value, false⟩

/-- What becomes of a call, and the code that its handler is told. -/
inductive Verdict (codec : Codec) (version : String) (id : UInt64) (r : Reply) :
    Outcome → ℤ → Prop where
  | failed (hresult : r.result ≠ 0) : Verdict codec version id r .blank r.result
  | answered (hresult : r.result = 0) (response : Json)
      (hresponds : r.Responds codec version id response) (o : Outcome)
      (htells : Tells response o) : Verdict codec version id r o 0
  | rejected (hresult : r.result = 0)
      (hreject : ∀ response, r.Responds codec version id response → ∀ o, ¬Tells response o) :
      Verdict codec version id r .blank CURLE_WEIRD_SERVER_REPLY

section Parsing

variable {codec : Codec} {rpc : JsonRPC}

theorem equalsString_iff {j : Json} {s : String} : equalsString j s = true ↔ j = .string s := by
  cases j <;> simp [equalsString]

/-- The object after `parse` -/
def learn (rpc : JsonRPC) (o : Outcome) : JsonRPC :=
  { rpc with result := o.result, error := o.error, successed := o.successed }

@[simp] theorem outcome_learn (o : Outcome) : (rpc.learn o).outcome = o := rfl

theorem take_cases (hblank : rpc.outcome = .blank) (resp : Json) :
    (∃ o, Tells resp o ∧ rpc.take resp = .ok (rpc.learn o)) ∨
      (∃ what, rpc.take resp = .error what) ∧ ∀ o, ¬Tells resp o := by
  obtain ⟨hresult, herror, hsuccessed⟩ : rpc.result = .null ∧ rpc.error = .null ∧
      rpc.successed = false := by simpa [outcome, Outcome.blank] using hblank
  unfold take
  cases hfound : resp.find "result" with
  | some value =>
    cases hfailed : resp.find "error" with
    | some error =>
      refine .inr ⟨⟨_, rfl⟩, fun o ho => ?_⟩
      cases ho <;> simp_all
    | none => exact .inl ⟨_, .result value hfound hfailed, by simp [learn, ← herror]⟩
  | none =>
    cases hfailed : resp.find "error" with
    | some error =>
      cases hnull : error.isNull with
      | true =>
        refine .inr ⟨⟨_, if_pos hnull⟩, fun o ho => ?_⟩
        cases ho <;> simp_all
      | false =>
        exact .inl ⟨_, .error error hfailed hnull hfound, by
          simp [learn, hresult, hsuccessed, hnull]⟩
    | none =>
      refine .inr ⟨⟨_, rfl⟩, fun o ho => ?_⟩
      cases ho <;> simp_all

/-- `parse` comes to its end exactly with a response to the call. -/
theorem parse_checks (codec : Codec) (rpc : JsonRPC) (result : ℤ) (info : Info) (source : Bytes) :
    (∃ resp, (Reply.mk result info source).Responds codec rpc.version rpc.id resp ∧
      rpc.parse codec info source = rpc.take resp) ∨
    (∃ what, rpc.parse codec info source = .error what) ∧
      ∀ resp, ¬(Reply.mk result info source).Responds codec rpc.version rpc.id resp := by
  by_cases hcode : info.responseCode = 200
  swap
  · exact .inr ⟨⟨_, if_pos hcode⟩, fun _ h => hcode h.code⟩
  by_cases htype : info.contentType = "application/json"
  swap
  · exact .inr ⟨⟨"invalid Content-Type", by simp [parse, hcode, htype]⟩, fun _ h => htype h.type⟩
  cases hparse : codec.parse source with
  | error what =>
    refine .inr ⟨⟨what, by simp [parse, hcode, htype, hparse]⟩, fun _ h => ?_⟩
    simpa [hparse] using h.body
  | ok resp =>
    have hsame : ∀ response, (Reply.mk result info source).Responds codec rpc.version rpc.id
        response → response = resp := fun response h => by simpa [hparse, eq_comm] using h.body
    cases hversion : resp.find "jsonrpc" with
    | none =>
      refine .inr ⟨⟨"can't find JSON-RPC version", by simp [parse, hcode, htype, hparse, hversion]⟩,
        fun response h => ?_⟩
      cases hsame response h
      simpa [hversion] using h.version
    | some jrpcvers =>
      by_cases hequals : equalsString jrpcvers rpc.version = true
      swap
      · refine .inr ⟨⟨"bad JSON-RPC version", by
          simp [parse, hcode, htype, hparse, hversion, hequals]⟩,
          fun response h => hequals ?_⟩
        cases hsame response h
        have := h.version
        rw [hversion, Option.some.injEq] at this
        rwa [equalsString_iff]
      cases hid : resp.find "id" with
      | none =>
        refine .inr ⟨⟨"can't find JSON-RPC id", by
          simp [parse, hcode, htype, hparse, hversion, hequals, hid]⟩, fun response h => ?_⟩
        cases hsame response h
        obtain ⟨value, hvalue, -⟩ := h.id
        simp [hid] at hvalue
      | some jrpcid =>
        by_cases hmatch : isNumber jrpcid = true ∧ equalsId jrpcid rpc.id = true
        · refine .inl ⟨resp, ⟨hcode, htype, hparse, ?_, jrpcid, hid, hmatch⟩, ?_⟩
          · rw [hversion, equalsString_iff.mp hequals]
          · simp [parse, hcode, htype, hparse, hversion, hequals, hid, hmatch.1, hmatch.2]
        · refine .inr ⟨⟨"invalid JSON-RPC id", ?_⟩, fun response h => hmatch ?_⟩
          · have hnot : (!isNumber jrpcid || !equalsId jrpcid rpc.id) = true := by
              cases hnumber : isNumber jrpcid <;> simp_all
            simp [parse, hcode, htype, hparse, hversion, hequals, hid, hnot]
          · cases hsame response h
            obtain ⟨value, hvalue, hboth⟩ := h.id
            rw [hid, Option.some.injEq] at hvalue
            rwa [hvalue]

/-- What `done` does before the handler is called. -/
theorem done_verdict (codec : Codec) (hblank : rpc.outcome = .blank) (result : ℤ) (info : Info) :
    ∃ o code text, rpc.done codec result info = (rpc.learn o, code, text) ∧
      Verdict codec rpc.version rpc.id ⟨result, info, rpc.buffer⟩ o code := by
  have hlearn : rpc.learn .blank = rpc := by
    rw [← hblank]
    rfl
  by_cases hresult : result = 0
  swap
  · exact ⟨.blank, result, codec.strerror result, by simp [done, hresult, hlearn],
      .failed hresult⟩
  rcases parse_checks codec rpc result info rpc.buffer with
    ⟨resp, hresponds, htake⟩ | ⟨⟨what, hthrows⟩, hnone⟩
  · rcases take_cases hblank resp with ⟨o, htells, hok⟩ | ⟨⟨what, hthrows⟩, htells⟩
    · exact ⟨o, 0, codec.strerror 0, by simp [done, hresult, htake, hok],
        .answered hresult resp hresponds o htells⟩
    · refine ⟨.blank, CURLE_WEIRD_SERVER_REPLY, what,
        by simp [done, hresult, htake, hthrows, hlearn], .rejected hresult ?_⟩
      intro response hresponse
      obtain rfl : response = resp := by
        have hbody := hresponse.body
        rw [hresponds.body, Except.ok.injEq] at hbody
        exact hbody.symm
      exact htells
  · exact ⟨.blank, CURLE_WEIRD_SERVER_REPLY, what, by simp [done, hresult, hthrows, hlearn],
      .rejected hresult fun response hresponse => absurd hresponse (hnone response)⟩

end Parsing

/-- A call that is in use. -/
structure Exchange where
  use : Use
  rpc : JsonRPC

namespace Exchange

/-- `run`; `params` and `version` with a value; libcurl writes a part of the reply, and has a DONE
message; the posted `done`, up to the call of the handler, and its end. -/
inductive Event where
  | run (added : Bool)
  | params (value : Json)
  | version (value : String)
  | write (data : Bytes)
  | message (result : ℤ)
  | done (info : Info)
  | reset

/-- A request that libcurl gets with its headers, how a `run` ends, by the number of its `exec`,
and the calls of handlers. -/
inductive Output where
  | sent (headers : List String) (data : Bytes)
  | undumped
  | returned (exec : ℕ)
  | threw (exec : ℕ)
  | invoked (exec : ℕ) (error : ℤ) (text : String)
  deriving DecidableEq, Repr

def fresh (id : UInt64) (method : String) (params : Json) : Exchange :=
  ⟨.fresh, { id := id, method := method, params := params }⟩

section Steps

variable (codec : Codec)

/-- `run`. The options are set before the handle is attached, if it is not yet. -/
def run (c : Exchange) (added : Bool) : Exchange × List Output :=
  let rpc := c.rpc.addContentType "application/json"
  match codec.dump rpc.request with
  | none => (⟨c.use, rpc⟩, [.undumped])
  | some req =>
    let use := (c.use.exec added).1
    if c.use.transfer.attached then (⟨use, rpc⟩, [.returned use.execs])
    else if added then (⟨use, rpc⟩, [.sent rpc.headers req, .returned use.execs])
    else (⟨use, rpc⟩, [.threw use.execs])

def step (c : Exchange) : Event → Except Use.Fault (Exchange × List Output)
  | .run added => .ok (c.run codec added)
  | .params value => .ok ({ c with rpc := { c.rpc with params := value } }, [])
  | .version value => .ok ({ c with rpc := { c.rpc with version := value } }, [])
  | .write data =>
    if c.use.messages = 0 then .error .noMessage
    else .ok ({ c with rpc := { c.rpc with buffer := c.rpc.buffer ++ data } }, [])
  | .message result => (c.use.step (.message result)).map fun r => (⟨r.1, c.rpc⟩, [])
  | .done info =>
    match c.use.running, c.use.posted with
    | false, result :: posted =>
      let (rpc, error, text) := c.rpc.done codec result info
      .ok (⟨{ c.use with posted := posted, running := true }, rpc⟩,
        match c.use.transfer.done with
        | some h => [.invoked h error text]
        | none => [])
    | _, _ => .error .noCall
  | .reset => (c.use.step .reset).map fun r => (⟨r.1, c.rpc⟩, [])

def machine : Machine Use.Fault Exchange Event Output where
  step := step codec

end Steps

/-- The codes of the DONE messages -/
def results (events : List Event) : List ℤ :=
  events.filterMap fun
    | .message result => some result
    | _ => none

/-- The reply that has been written -/
def bodyOf (events : List Event) : Bytes :=
  events.flatMap fun
    | .write data => data
    | _ => []

/-- The version after the calls of its setter -/
def versionOf (events : List Event) : String :=
  events.foldl (fun version e => match e with
    | .version value => value
    | _ => version) "2.0"

/-- The requests that libcurl got -/
def requests (out : List Output) : List (List String × Bytes) :=
  out.filterMap fun
    | .sent headers data => some (headers, data)
    | _ => none

/-- What handlers were told -/
def told (out : List Output) : List (ℕ × ℤ × String) :=
  out.filterMap fun
    | .invoked exec error text => some (exec, error, text)
    | _ => none

def Event.isDone : Event → Bool
  | done _ => true
  | _ => false

section Runs

variable {codec : Codec} {id : UInt64} {method : String} {params : Json}
  {events : List Event} {out : List Output} {c c' : Exchange}

@[simp] theorem results_append (events events' : List Event) :
    results (events ++ events') = results events ++ results events' := List.filterMap_append

@[simp] theorem requests_append (out out' : List Output) :
    requests (out ++ out') = requests out ++ requests out' := List.filterMap_append

@[simp] theorem told_append (out out' : List Output) :
    told (out ++ out') = told out ++ told out' := List.filterMap_append

/-- What an event that can happen does. -/
inductive Effect (codec : Codec) (c : Exchange) : Event → Exchange → List Output → Prop where
  | undumped (added : Bool) :
      Effect codec c (.run added) { c with rpc := c.rpc.addContentType "application/json" }
        [.undumped]
  | reused (added : Bool) (hattached : c.use.transfer.attached = true) :
      Effect codec c (.run added)
        ⟨{ c.use with
            transfer := { c.use.transfer with done := some (c.use.execs + 1) }
            execs := c.use.execs + 1 }, c.rpc.addContentType "application/json"⟩
        [.returned (c.use.execs + 1)]
  | added (req : Bytes) (hattached : c.use.transfer.attached = false)
      (hdump : codec.dump (c.rpc.addContentType "application/json").request = some req) :
      Effect codec c (.run true)
        ⟨{ c.use with
            transfer := { c.use.transfer with done := some (c.use.execs + 1), attached := true }
            execs := c.use.execs + 1
            messages := c.use.messages + 1 }, c.rpc.addContentType "application/json"⟩
        [.sent (c.rpc.addContentType "application/json").headers req,
          .returned (c.use.execs + 1)]
  | refused (hattached : c.use.transfer.attached = false) :
      Effect codec c (.run false)
        ⟨{ c.use with transfer := c.use.transfer.reset, execs := c.use.execs + 1 },
          c.rpc.addContentType "application/json"⟩
        [.threw (c.use.execs + 1)]
  | params (value : Json) :
      Effect codec c (.params value) { c with rpc := { c.rpc with params := value } } []
  | version (value : String) :
      Effect codec c (.version value) { c with rpc := { c.rpc with version := value } } []
  | write (data : Bytes) (hmessages : c.use.messages ≠ 0) :
      Effect codec c (.write data)
        { c with rpc := { c.rpc with buffer := c.rpc.buffer ++ data } } []
  | message (result : ℤ) (hmessages : c.use.messages ≠ 0) :
      Effect codec c (.message result)
        { c with
          use := { c.use with
            messages := c.use.messages - 1, posted := c.use.posted ++ [result] } } []
  | done (info : Info) (result : ℤ) (posted : List ℤ) (hrunning : c.use.running = false)
      (hposted : c.use.posted = result :: posted) :
      Effect codec c (.done info)
        ⟨{ c.use with posted := posted, running := true }, (c.rpc.done codec result info).1⟩
        (c.use.transfer.done.toList.map fun h =>
          .invoked h (c.rpc.done codec result info).2.1 (c.rpc.done codec result info).2.2)
  | reset (hrunning : c.use.running = true) :
      Effect codec c .reset
        { c with use := { c.use with transfer := c.use.transfer.reset, running := false } } []

theorem run_effect (codec : Codec) (c : Exchange) (added : Bool) :
    Effect codec c (.run added) (c.run codec added).1 (c.run codec added).2 := by
  unfold run
  simp only
  cases hdump : codec.dump (c.rpc.addContentType "application/json").request with
  | none => exact .undumped added
  | some req =>
    cases hattached : c.use.transfer.attached with
    | true =>
      rw [Use.exec_attached hattached]
      exact .reused added hattached
    | false =>
      cases added with
      | true =>
        rw [Use.exec_added hattached]
        exact .added req hattached hdump
      | false =>
        rw [Use.exec_refused hattached]
        exact .refused hattached

theorem step_effect {e : Event} {o : List Output} (h : c.step codec e = .ok (c', o)) :
    Effect codec c e c' o := by
  cases e with
  | run added =>
    obtain ⟨rfl, rfl⟩ : (c.run codec added).1 = c' ∧ (c.run codec added).2 = o := by
      simpa [step, Prod.ext_iff] using h
    exact run_effect codec c added
  | params value =>
    cases h
    exact .params value
  | version value =>
    cases h
    exact .version value
  | write data =>
    simp only [step] at h
    split_ifs at h with hmessages
    cases h
    exact .write data hmessages
  | message result =>
    simp only [step, Use.step] at h
    split_ifs at h with hmessages
    · cases h
    · cases h
      exact .message result hmessages
  | done info =>
    simp only [step] at h
    split at h
    · rename_i result posted hrunning hposted
      have heffect : Effect codec c (.done info) _ _ := .done info result posted hrunning hposted
      cases h
      cases hdone : c.use.transfer.done <;> simpa [hdone] using heffect
    · cases h
  | reset =>
    simp only [step, Use.step] at h
    split_ifs at h with hrunning
    · cases h
      exact .reset hrunning
    · cases h

/-- An object before its handle is attached, with a DONE message or a posted `done` to come, and
from the call of the handler on. -/
inductive Stage (codec : Codec) (events : List Event) (out : List Output) (c : Exchange) :
    Prop where
  | unused (hattached : c.use.transfer.attached = false) (hquiet : c.use.Quiet)
      (hblank : c.rpc.outcome = .blank) (hnone : events.all (!·.isDone))
      (hresults : results events = []) (hrequests : requests out = []) (htold : told out = [])
  | waiting (h : ℕ) (hattached : c.use.transfer.attached = true)
      (hdone : c.use.transfer.done = some h) (hrunning : c.use.running = false)
      (hpending : c.use.messages + c.use.posted.length = 1)
      (hblank : c.rpc.outcome = .blank) (hnone : events.all (!·.isDone))
      (hresults : results events = c.use.posted) (hrequests : (requests out).length = 1)
      (htold : told out = []) (hreturned : .returned h ∈ out)
  | decided (before : List Event) (info : Info) (after : List Event) (result : ℤ) (h : ℕ)
      (code : ℤ) (text : String) (hattached : c.use.transfer.attached = true)
      (hmessages : c.use.messages = 0) (hposted : c.use.posted = [])
      (hevents : events = before ++ .done info :: after)
      (hnone : (before ++ after).all (!·.isDone)) (hresults : results before = [result])
      (hrequests : (requests out).length = 1) (htold : told out = [(h, code, text)])
      (hreturned : .returned h ∈ out)
      (hverdict : Verdict codec (versionOf before) c.rpc.id ⟨result, info, bodyOf before⟩
        c.rpc.outcome code)

/-- The members of the object that the events tell. -/
structure Members (id : UInt64) (method : String) (events : List Event) (c : Exchange) : Prop where
  id : c.rpc.id = id
  method : c.rpc.method = method
  version : c.rpc.version = versionOf events
  buffer : c.rpc.buffer = bodyOf events

theorem take_ok {rpc rpc' : JsonRPC} {resp : Json} (h : rpc.take resp = .ok rpc') :
    ∃ o, rpc' = rpc.learn o := by
  unfold take at h
  split at h
  · cases h
  · split_ifs at h
    cases h
    exact ⟨⟨_, _, _⟩, rfl⟩
  · cases h
    exact ⟨⟨_, _, _⟩, rfl⟩
  · cases h

/-- Only the result, the error and the flag change in `done`. -/
theorem done_learns (codec : Codec) (rpc : JsonRPC) (result : ℤ) (info : Info) :
    ∃ o, (rpc.done codec result info).1 = rpc.learn o := by
  by_cases hresult : result = 0
  swap
  · exact ⟨rpc.outcome, by simp [done, hresult, learn, outcome]⟩
  cases hparse : rpc.parse codec info rpc.buffer with
  | error what => exact ⟨rpc.outcome, by simp [done, hresult, hparse, learn, outcome]⟩
  | ok rpc' =>
    rcases parse_checks codec rpc result info rpc.buffer with
      ⟨resp, -, htake⟩ | ⟨⟨what, hthrows⟩, -⟩
    · obtain ⟨o, ho⟩ := take_ok (htake.symm.trans hparse)
      exact ⟨o, by simp [done, hresult, hparse, ho]⟩
    · simp [hthrows] at hparse

theorem Members.effect (h : Members id method events c) {e : Event} {o : List Output}
    (heffect : Effect codec c e c' o) : Members id method (events ++ [e]) c' := by
  obtain ⟨hid, hmethod, hversion, hbuffer⟩ := h
  cases heffect with
  | done info result posted =>
    obtain ⟨o, ho⟩ := done_learns codec c.rpc result info
    rw [ho]
    exact ⟨hid, hmethod, by simp [learn, hversion, versionOf], by simp [learn, hbuffer, bodyOf]⟩
  | _ => exact ⟨hid, hmethod, by simp [hversion, versionOf, addContentType],
      by simp [hbuffer, bodyOf, addContentType]⟩

/-- Events that are neither a DONE message nor a call of `done`, and that add no handle. -/
theorem Stage.quiet (h : Stage codec events out c) {e : Event} {o : List Output}
    (he : e.isDone = false) (hresult : results [e] = []) (hrequest : requests o = [])
    (htell : told o = []) (hattached' : c'.use.transfer.attached = c.use.transfer.attached)
    (hmessages' : c'.use.messages = c.use.messages) (hposted' : c'.use.posted = c.use.posted)
    (houtcome : c'.rpc.outcome = c.rpc.outcome) (hid : c'.rpc.id = c.rpc.id)
    (hlive : c.use.running = false → c'.use.running = false ∧
      (c.use.transfer.attached = true → ∀ h, c.use.transfer.done = some h →
        ∃ h', c'.use.transfer.done = some h' ∧ (h' = h ∨ .returned h' ∈ o))) :
    Stage codec (events ++ [e]) (out ++ o) c' := by
  have hall : ∀ events : List Event, events.all (!·.isDone) → (events ++ [e]).all (!·.isDone) := by
    intro events hnone
    rw [List.all_append, hnone]
    simp [he]
  cases h with
  | unused hattached hquiet hblank hnone hresults hrequests htold =>
    exact .unused (hattached'.trans hattached)
      ⟨hmessages'.trans hquiet.messages, hposted'.trans hquiet.posted, (hlive hquiet.running).1⟩
      (houtcome.trans hblank) (hall events hnone) (by simp [hresults, hresult])
      (by simp [hrequests, hrequest]) (by simp [htold, htell])
  | waiting h hattached hdone hrunning hpending hblank hnone hresults hrequests htold hreturned =>
    obtain ⟨hrunning', hkept⟩ := hlive hrunning
    obtain ⟨h', hdone', hfrom⟩ := hkept hattached h hdone
    refine .waiting h' (hattached'.trans hattached) hdone' hrunning'
      (by rw [hmessages', hposted', hpending]) (houtcome.trans hblank) (hall events hnone)
      (by simp [hresults, hresult, hposted']) (by simp [hrequests, hrequest])
      (by simp [htold, htell]) ?_
    rcases hfrom with rfl | hmem
    · exact List.mem_append_left _ hreturned
    · exact List.mem_append_right _ hmem
  | decided before info after result h code text hattached hmessages hposted hevents hnone
      hresults hrequests htold hreturned hverdict =>
    refine .decided before info (after ++ [e]) result h code text (hattached'.trans hattached)
      (hmessages'.trans hmessages) (hposted'.trans hposted) (by simp [hevents]) ?_ hresults
      (by simp [hrequests, hrequest]) (by simp [htold, htell])
      (List.mem_append_left _ hreturned) (by rwa [houtcome, hid])
    rw [← List.append_assoc]
    exact hall _ hnone

theorem Stage.effect (h : Stage codec events out c) (hmembers : Members id method events c)
    {e : Event} {o : List Output} (heffect : Effect codec c e c' o) :
    Stage codec (events ++ [e]) (out ++ o) c' := by
  cases heffect with
  | undumped | params | version | write =>
    exact h.quiet rfl rfl rfl rfl rfl rfl rfl rfl rfl
      fun hrunning => ⟨hrunning, fun _ h hdone => ⟨h, hdone, .inl rfl⟩⟩
  | reused added hattached =>
    exact h.quiet rfl rfl rfl rfl rfl rfl rfl rfl rfl
      fun hrunning => ⟨hrunning, fun _ _ _ => ⟨_, rfl, .inr (List.mem_singleton_self _)⟩⟩
  | refused hattached =>
    refine h.quiet rfl rfl rfl rfl rfl rfl rfl rfl rfl fun hrunning => ⟨hrunning, fun hyes => ?_⟩
    rw [hattached] at hyes
    cases hyes
  | reset hrunning =>
    refine h.quiet rfl rfl rfl rfl rfl rfl rfl rfl rfl fun hnot => ?_
    rw [hrunning] at hnot
    cases hnot
  | added req hattached _ =>
    cases h with
    | unused _ hquiet hblank hnone hresults hrequests htold =>
      refine .waiting (c.use.execs + 1) rfl rfl hquiet.running ?_ hblank ?_ ?_ ?_ ?_ ?_
      · simp [hquiet.messages, hquiet.posted]
      · simpa [Event.isDone] using hnone
      · rw [results_append, hresults, hquiet.posted]
        rfl
      · rw [requests_append, hrequests]
        rfl
      · rw [told_append, htold]
        rfl
      · simp
    | waiting _ hyes | decided _ _ _ _ _ _ _ hyes => simp [hyes] at hattached
  | message result hmessages =>
    cases h with
    | unused _ hquiet => exact absurd hquiet.messages hmessages
    | waiting h hattached hdone hrunning hpending hblank hnone hresults hrequests htold hreturned =>
      refine .waiting h hattached hdone hrunning ?_ hblank ?_ ?_ (by simpa) (by simpa) (by simpa)
      · simp only [List.length_append, List.length_singleton]
        omega
      · simpa [Event.isDone] using hnone
      · rw [results_append, hresults]
        rfl
    | decided _ _ _ _ _ _ _ _ hzero => exact absurd hzero hmessages
  | done info result posted hrunning hcons =>
    cases h with
    | unused _ hquiet =>
      rw [hquiet.posted] at hcons
      cases hcons
    | waiting h hattached hdone _ hpending hblank hnone hresults hrequests htold hreturned =>
      rw [hcons, List.length_cons] at hpending
      obtain rfl : posted = [] := List.length_eq_zero_iff.mp (by omega)
      obtain ⟨o, code, text, hends, hverdict⟩ := done_verdict codec hblank result info
      rw [hmembers.version, hmembers.buffer] at hverdict
      refine .decided events info [] result h code text hattached (by simp only; omega) rfl rfl
        (by simpa using hnone) (by simpa [hcons] using hresults) ?_ ?_
        (List.mem_append_left _ hreturned) ?_
      · rw [requests_append, hdone, List.length_append, hrequests]
        rfl
      · rw [told_append, htold, hdone, hends]
        rfl
      · rw [hends]
        exact hverdict
    | decided _ _ _ _ _ _ _ _ _ hnil =>
      rw [hnil] at hcons
      cases hcons

theorem run_members (hrun : (machine codec).run (fresh id method params) events = .ok (c, out)) :
    Members id method events c :=
  (machine codec).run_invariant (fun events _ c => Members id method events c)
    (fun _ _ _ _ _ _ h hstep => h.effect (step_effect hstep)) ⟨rfl, rfl, rfl, rfl⟩ hrun

theorem run_stage (hrun : (machine codec).run (fresh id method params) events = .ok (c, out)) :
    Stage codec events out c :=
  ((machine codec).run_invariant
    (fun events out c => Members id method events c ∧ Stage codec events out c)
    (fun _ _ _ _ _ _ h hstep =>
      ⟨h.1.effect (step_effect hstep), h.2.effect h.1 (step_effect hstep)⟩)
    ⟨⟨rfl, rfl, rfl, rfl⟩, .unused rfl ⟨rfl, rfl, rfl⟩ rfl rfl rfl rfl rfl⟩ hrun).2

/-- What libcurl gets is a request of this object. -/
theorem run_requests (hrun : (machine codec).run (fresh id method params) events = .ok (c, out)) :
    ∀ x ∈ requests out, ∃ rpc : JsonRPC, rpc.id = id ∧ rpc.method = method ∧
      codec.dump rpc.request = some x.2 := by
  refine ((machine codec).run_invariant (fun events out c => Members id method events c ∧
    ∀ x ∈ requests out, ∃ rpc : JsonRPC, rpc.id = id ∧ rpc.method = method ∧
      codec.dump rpc.request = some x.2) ?_ ⟨⟨rfl, rfl, rfl, rfl⟩, by simp [requests]⟩ hrun).2
  intro events out c e c' o ⟨hmembers, hout⟩ hstep
  have heffect := step_effect hstep
  refine ⟨hmembers.effect heffect, fun x hx => ?_⟩
  rw [requests_append, List.mem_append] at hx
  rcases hx with hx | hx
  · exact hout x hx
  · cases heffect with
    | added req _ hdump =>
      obtain rfl : x = ((c.rpc.addContentType "application/json").headers, req) := by
        simpa [requests] using hx
      exact ⟨_, hmembers.id, hmembers.method, hdump⟩
    | done info result posted => cases hdone : c.use.transfer.done <;> simp [hdone, requests] at hx
    | _ => simp [requests] at hx

/-- `done` is called once, and leaves its verdict. -/
theorem run_decided (hrun : (machine codec).run (fresh id method params) events = .ok (c, out))
    {before after : List Event} {info : Info} (hevents : events = before ++ .done info :: after) :
    (∀ info', .done info' ∉ before ++ after) ∧
      ∃ result h code text, results before = [result] ∧ told out = [(h, code, text)] ∧
        .returned h ∈ out ∧
        Verdict codec (versionOf before) id ⟨result, info, bodyOf before⟩ c.rpc.outcome code := by
  have hnot : ∀ events : List Event, events.all (!·.isDone) → ∀ info, .done info ∉ events := by
    intro events hnone info hmem
    have := List.all_eq_true.mp hnone _ hmem
    simp [Event.isDone] at this
  have hmem : .done info ∈ events := by simp [hevents]
  cases run_stage hrun with
  | unused _ _ _ hnone => exact absurd hmem (hnot _ hnone info)
  | waiting _ _ _ _ _ _ hnone => exact absurd hmem (hnot _ hnone info)
  | decided before' info' after' result h code text _ _ _ hevents' hnone hresults _ htold
      hreturned hverdict =>
    obtain ⟨rfl, heq, rfl⟩ := (List.append_cons_inj_of_notMem
      (fun hmem => hnot _ hnone info (List.mem_append_left _ hmem))
      (fun hmem => hnot _ hnone info (List.mem_append_right _ hmem))).mp
      (hevents'.symm.trans hevents)
    cases heq
    rw [(run_members hrun).id] at hverdict
    exact ⟨hnot _ hnone, result, h, code, text, hresults, htold, hreturned, hverdict⟩

/-- The texts of a request, of the same one made by the next object, and of the response to the
first -/
def requestText : Bytes :=
  "\x7b\"id\":10000000,\"jsonrpc\":\"2.0\",\"method\":\"ping\"\x7d".toUTF8.data.toList

def otherText : Bytes :=
  "\x7b\"id\":10000001,\"jsonrpc\":\"2.0\",\"method\":\"ping\"\x7d".toUTF8.data.toList

def responseText : Bytes :=
  "\x7b\"id\":10000000,\"jsonrpc\":\"2.0\",\"result\":\"pong\"\x7d".toUTF8.data.toList

/-- A library that knows these texts -/
def smallCodec : Codec where
  parse text :=
    if text = requestText then .ok (.object [("method", .string "ping"),
      ("jsonrpc", .string "2.0"), ("id", .integer 10000000)])
    else if text = otherText then .ok (.object [("method", .string "ping"),
      ("jsonrpc", .string "2.0"), ("id", .integer 10000001)])
    else if text = responseText then .ok (.object [("result", .string "pong"),
      ("id", .integer 10000000), ("jsonrpc", .string "2.0")])
    else .error "parse error"
  dump
    | .object [("method", .string "ping"), ("jsonrpc", .string "2.0"),
        ("id", .integer 10000000)] => some requestText
    | .object [("method", .string "ping"), ("jsonrpc", .string "2.0"),
        ("id", .integer 10000001)] => some otherText
    | .object [("result", .string "pong"), ("id", .integer 10000000),
        ("jsonrpc", .string "2.0")] => some responseText
    | _ => none
  strerror _ := "No error"

/-- The first object sends the request and gets the response. -/
theorem run_smallCodec : ∃ c out,
    (machine smallCodec).run (fresh (Easy.createId 0) "ping" .null)
      [.run true, .write responseText, .message 0, .done ⟨some 200, some "application/json"⟩] =
        .ok (c, out) ∧
    (["Content-Type: application/json"], requestText) ∈ requests out :=
  ⟨_, _, rfl, by decide⟩

/-- An object makes one exchange at most, whatever is called. Its handler is told once, and the
object has the verdict on this exchange from then on. -/
theorem run_verdict (hrun : (machine codec).run (fresh id method params) events = .ok (c, out)) :
    (requests out).length ≤ 1 ∧
    ((∀ info, .done info ∉ events) → c.rpc.outcome = .blank ∧ told out = []) ∧
    ∀ before info after, events = before ++ .done info :: after →
      (∀ info', .done info' ∉ before ++ after) ∧
      ∃ result h code text, results before = [result] ∧ told out = [(h, code, text)] ∧
        .returned h ∈ out ∧
        Verdict codec (versionOf before) id ⟨result, info, bodyOf before⟩ c.rpc.outcome code := by
  refine ⟨?_, ?_, fun before info after => run_decided hrun⟩
  · cases run_stage hrun with
    | unused _ _ _ _ _ hrequests => simp [hrequests]
    | waiting _ _ _ _ _ _ _ _ hrequests => exact hrequests.le
    | decided _ _ _ _ _ _ _ _ _ _ _ _ _ hrequests => exact hrequests.le
  · intro hno
    cases run_stage hrun with
    | unused _ _ hblank _ _ _ htold => exact ⟨hblank, htold⟩
    | waiting _ _ _ _ _ hblank _ _ _ htold => exact ⟨hblank, htold⟩
    | decided _ info _ _ _ _ _ _ _ _ hevents => exact absurd (by simp [hevents]) (hno info)

/-- The verdict on this exchange -/
theorem run_verdict_one : ∃ c out h code text,
    (machine smallCodec).run (fresh (Easy.createId 0) "ping" .null)
      [.run true, .write responseText, .message 0, .done ⟨some 200, some "application/json"⟩] =
        .ok (c, out) ∧
    told out = [(h, code, text)] ∧
      Verdict smallCodec "2.0" (Easy.createId 0)
        ⟨0, ⟨some 200, some "application/json"⟩, responseText⟩ c.rpc.outcome code := by
  obtain ⟨c, out, hrun, -⟩ := run_smallCodec
  obtain ⟨-, -, hdecided⟩ := run_verdict hrun
  obtain ⟨-, result, h, code, text, hresults, htold, -, hverdict⟩ :=
    hdecided [.run true, .write responseText, .message 0] _ [] rfl
  obtain rfl : (0 : ℤ) = result := by simpa [results] using hresults
  exact ⟨c, out, h, code, text, hrun, htold, hverdict⟩

end Runs
end Exchange

section Servers

open Exchange

/-- What is left of a member of an object that is dumped and parsed. -/
def Kept : Json → Json → Prop
  | .integer value, j => j = .integer value
  | .string value, j => j = .string value
  | .float _, _ => True -- a number that is not finite is dumped as null
  | j, j' => j'.isNull = j.isNull

/-- The members of an object that is dumped are found in what is parsed, and no others. -/
structure Codec.Faithful (codec : Codec) : Prop where
  dump : ∀ j text, codec.dump j = some text → ∃ j', codec.parse text = .ok j' ∧
    (∀ name, j.find name = none → j'.find name = none) ∧
    ∀ name value, j.find name = some value →
      ∃ value', j'.find name = some value' ∧ Kept value value'

/-- What a server answers to a method and its parameters -/
inductive Answer where
  | result (value : Json)
  | error (code : ℤ) (message : String)

def Answer.toJson (answer : Answer) (id : Json) : Json :=
  let j := (Json.null.set "jsonrpc" (.string "2.0")).set "id" id
  match answer with
  | .result value => j.set "result" value
  | .error code message =>
    j.set "error" ((Json.null.set "code" (.integer code)).set "message" (.string message))

/-- A server as JSON-RPC asks for it: its response has the id of the request. -/
def serve (codec : Codec) (f : Json → Answer) (data : Bytes) : Option Bytes :=
  match codec.parse data with
  | .error _ => none
  | .ok req =>
    match req.find "id" with
    | none => none
    | some id => codec.dump ((f req).toJson id)

/-- The object has got an answer. -/
inductive Delivered : Answer → Outcome → Prop where
  | result (value value' : Json) (hkept : Kept value value') :
      Delivered (.result value) ⟨value', .null, true⟩
  | error (code : ℤ) (message : String) (value' : Json) (hnull : value'.isNull = false) :
      Delivered (.error code message) ⟨.null, value', false⟩

theorem Delivered.ne_blank {answer : Answer} {o : Outcome} (h : Delivered answer o) :
    o ≠ .blank := by
  rintro rfl
  generalize ho : Outcome.blank = o at h
  cases h with
  | result => simp [Outcome.blank] at ho
  | error code message value' hnull =>
    obtain rfl : Json.null = value' := (Outcome.mk.inj ho).2.1
    cases hnull

variable {codec : Codec}

theorem find_request (rpc : JsonRPC) :
    rpc.request.find "id" = some (.integer rpc.id.toNat) ∧
      rpc.request.find "method" = some (.string rpc.method) := by
  unfold request
  simp only
  split_ifs <;> simp (disch := decide) [Json.find_set_ne]

theorem find_answer (answer : Answer) (id : Json) :
    (answer.toJson id).find "jsonrpc" = some (.string "2.0") ∧
      (answer.toJson id).find "id" = some id := by
  cases answer <;> simp (disch := decide) [Answer.toJson, Json.find_set_ne]

theorem Tells.unique {response : Json} {o o' : Outcome} (h : Tells response o)
    (h' : Tells response o') : o = o' := by
  cases h with
  | result value hvalue herror =>
    cases h' with
    | result value' hvalue' =>
      cases hvalue.symm.trans hvalue'
      rfl
    | error _ hvalue' => simp [herror] at hvalue'
  | error value hvalue _ hresult =>
    cases h' with
    | result _ hvalue' => simp [hresult] at hvalue'
    | error value' hvalue' =>
      cases hvalue.symm.trans hvalue'
      rfl

/-- A response that is read tells what was answered. -/
theorem exists_tells {answer : Answer} {id response : Json}
    (habsent : ∀ name, (answer.toJson id).find name = none → response.find name = none)
    (hpresent : ∀ name value, (answer.toJson id).find name = some value →
      ∃ value', response.find name = some value' ∧ Kept value value') :
    ∃ o, Tells response o ∧ Delivered answer o := by
  cases answer with
  | result value =>
    obtain ⟨value', hfound, hkept⟩ := hpresent "result" value (by simp [Answer.toJson])
    have hnone := habsent "error" (by simp (disch := decide) [Answer.toJson, Json.find_set_ne])
    exact ⟨_, .result value' hfound hnone, .result value value' hkept⟩
  | error code message =>
    obtain ⟨value', hfound, hnull⟩ := hpresent "error" _ (by simp [Answer.toJson]; rfl)
    have hnone := habsent "result" (by simp (disch := decide) [Answer.toJson, Json.find_set_ne])
    exact ⟨_, .error value' hfound hnull hnone, .error code message value' hnull⟩

variable {j k : ℕ} {method method' : String} {params params' : Json}
  {events events' before after : List Exchange.Event} {out out' : List Exchange.Output}
  {c c' : Exchange} {info : Info}

/-- An object of version 2.0 takes the response to a request exactly if it made the request itself:
whatever reply it is given of those that a server makes to the requests of all objects, it has got
the answer and its handler is told 0, or it has got nothing and its handler is told of an error. -/
theorem answered_iff_own (hcodec : codec.Faithful) (hj : j < 2 ^ 64) (hk : k < 2 ^ 64)
    (hasked : (machine codec).run (fresh (Easy.createId j) method' params') events' =
      .ok (c', out')) {request : List String × Bytes} (hrequest : request ∈ requests out')
    (f : Json → Answer) {text : Bytes} (hserved : serve codec f request.2 = some text)
    (hrun : (machine codec).run (fresh (Easy.createId k) method params) events = .ok (c, out))
    (hevents : events = before ++ .done info :: after) (hresult : .message 0 ∈ before)
    (hcode : info.responseCode = 200) (htype : info.contentType = "application/json")
    (hversion : versionOf before = "2.0") (hbody : bodyOf before = text) :
    ∃ req h code t, codec.parse request.2 = .ok req ∧
      req.find "method" = some (.string method') ∧ told out = [(h, code, t)] ∧
      (j = k ↔ code = 0) ∧ (j = k ↔ Delivered (f req) c.rpc.outcome) ∧
      (j ≠ k ↔ c.rpc.outcome = .blank) := by
  -- the request, as the server reads it
  obtain ⟨rpc, hid, hmethod, hdump⟩ := run_requests hasked request hrequest
  obtain ⟨req, hparse, -, hkept⟩ := hcodec.dump _ _ hdump
  obtain ⟨value, hfind, hvalue⟩ := hkept "id" _ (find_request rpc).1
  obtain ⟨value', hfind', hvalue'⟩ := hkept "method" _ (find_request rpc).2
  obtain rfl : value = .integer (Easy.createId j).toNat := by rw [← hid]; exact hvalue
  obtain rfl : value' = .string method' := by rw [← hmethod]; exact hvalue'
  -- the response, as the object reads it
  simp only [serve, hparse, hfind] at hserved
  obtain ⟨response, hread, habsent, hpresent⟩ := hcodec.dump _ _ hserved
  obtain ⟨o, htells, hdelivered⟩ := exists_tells habsent hpresent
  obtain ⟨v, hv, hversion'⟩ := hpresent "jsonrpc" _ (find_answer _ _).1
  obtain ⟨i, hi, hid'⟩ := hpresent "id" _ (find_answer _ _).2
  obtain rfl : v = .string "2.0" := hversion'
  obtain rfl : i = .integer (Easy.createId j).toNat := hid'
  obtain ⟨-, result, h, code, t, hresults, htold, -, hverdict⟩ := run_decided hrun hevents
  have hzero : result = 0 := by
    have hmem : (0 : ℤ) ∈ results before := List.mem_filterMap.mpr ⟨_, hresult, rfl⟩
    simpa [hresults, eq_comm] using hmem
  have hresponds : (Reply.mk result info (bodyOf before)).Responds codec (versionOf before)
      (Easy.createId k) response ↔ j = k := by
    constructor
    · intro h
      obtain ⟨value, hvalue, -, hequals⟩ := h.id
      cases hi.symm.trans hvalue
      have hsame : (Easy.createId j).toNat = (Easy.createId k).toNat := by
        simpa [equalsId, not_lt.mpr (Int.natCast_nonneg _)] using hequals
      exact (Easy.createId_inj hj hk).mp (UInt64.toNat_inj.mp hsame)
    · rintro rfl
      refine ⟨hcode, htype, hbody ▸ hread, hversion ▸ hv, _, hi, rfl, ?_⟩
      simp [equalsId, not_lt.mpr (Int.natCast_nonneg _)]
  refine ⟨req, h, code, t, hparse, hfind', htold, ?_⟩
  generalize c.rpc.outcome = outcome at hverdict
  cases hverdict with
  | failed hfailed => exact absurd hzero hfailed
  | answered _ response' hresponds' o' htells' =>
    obtain rfl : response' = response := by
      have hbody' := hresponds'.body
      simp only [hbody, hread, Except.ok.injEq] at hbody'
      exact hbody'.symm
    have hown := hresponds.mp hresponds'
    cases htells.unique htells'
    simp [hown, hdelivered, hdelivered.ne_blank]
  | rejected _ hreject =>
    have hother : j ≠ k := fun hown => hreject response (hresponds.mpr hown) o htells
    have hnot : ¬Delivered (f req) .blank := fun h => h.ne_blank rfl
    simp [hother, hnot, CURLE_WEIRD_SERVER_REPLY]

theorem kept_refl (j : Json) : Kept j j := by
  cases j <;> simp [Kept]

theorem faithful_smallCodec : smallCodec.Faithful where
  dump := by
    intro j text h
    simp only [smallCodec] at h
    split at h
    · obtain rfl : requestText = text := by simpa using h
      refine ⟨_, ?_, fun _ h => h, fun _ value h => ⟨value, h, kept_refl value⟩⟩
      simp only [smallCodec, if_true]
    · obtain rfl : otherText = text := by simpa using h
      have hne : otherText ≠ requestText := by decide
      refine ⟨_, ?_, fun _ h => h, fun _ value h => ⟨value, h, kept_refl value⟩⟩
      simp only [smallCodec, if_neg hne, if_true]
    · obtain rfl : responseText = text := by simpa using h
      have hne : responseText ≠ requestText ∧ responseText ≠ otherText := by decide
      refine ⟨_, ?_, fun _ h => h, fun _ value h => ⟨value, h, kept_refl value⟩⟩
      simp only [smallCodec, if_neg hne.1, if_neg hne.2, if_true]
    · cases h

/-- The object that made the request takes the response, and the next one does not. -/
theorem answered_iff_own_two :
    let events : List Exchange.Event := [.run true, .write responseText, .message 0,
      .done ⟨some 200, some "application/json"⟩]
    ∃ c out c' out',
      (machine smallCodec).run (fresh (Easy.createId 0) "ping" .null) events = .ok (c, out) ∧
      (machine smallCodec).run (fresh (Easy.createId 1) "ping" .null) events = .ok (c', out') ∧
      Delivered (.result (.string "pong")) c.rpc.outcome ∧ c'.rpc.outcome = .blank := by
  intro events
  obtain ⟨c, out, hrun, hrequest⟩ := run_smallCodec
  have hserved : serve smallCodec (fun _ => .result (.string "pong")) requestText =
      some responseText := rfl
  have hevents : events = [.run true, .write responseText, .message 0] ++
      .done ⟨some 200, some "application/json"⟩ :: [] := rfl
  obtain ⟨c', out', hrun'⟩ : ∃ c' out', (machine smallCodec).run
      (fresh (Easy.createId 1) "ping" .null) events = .ok (c', out') := ⟨_, _, rfl⟩
  obtain ⟨req, h, code, t, -, -, -, -, hdelivered, -⟩ :=
    answered_iff_own faithful_smallCodec (j := 0) (k := 0) (by omega) (by omega) hrun hrequest _
      hserved hrun hevents (by simp) rfl rfl rfl (by simp [bodyOf])
  obtain ⟨req', h', code', t', -, -, -, -, -, hblank⟩ :=
    answered_iff_own faithful_smallCodec (j := 0) (k := 1) (by omega) (by omega) hrun hrequest _
      hserved hrun' hevents (by simp) rfl rfl rfl (by simp [bodyOf])
  exact ⟨c, out, c', out', hrun, hrun', hdelivered.mp rfl, hblank.mp (by omega)⟩

end Servers
end JsonRPC
end NetComponents.Curl
