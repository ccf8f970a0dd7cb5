import Gamnet.Lib.ByteString
import Gamnet.Lib.Transition

/-!
# The HTTP client

Get, Post, Put and Delete set some options of one curl handle and send the request. What they
do not set is left from the calls before: the fields to post, their size, and the name of the
method. Callback appends the chunks of a response, each as a C string, to one string that is
never cleared, and that string is the data of every call.

In a run of calls each has its own method and body, and the data of its own response, exactly
if it finds nothing of the earlier ones that it uses, and each chunk ends where a zero byte
follows it in memory (`calls_independent_iff`).

Options that every call sets are left out, and so is the option to follow redirections, which
has no part in what is sent. The calls return at once if the handle was not created.
-/

namespace Gamnet
namespace Http

inductive Method
  | get
  | post
  | put
  | delete
deriving DecidableEq

/-- A C string: the bytes in front of its terminating zero, and the memory behind that. -/
structure Chars where
  text : Bytes
  beyond : Bytes
  terminated : 0 ∉ text

/-- What Callback is given: size * nmemb bytes, and the memory behind them. -/
structure Chunk where
  bytes : Bytes
  beyond : Bytes

/-- The options of the curl handle. Without a size the fields are a C string. -/
structure CurlOptions where
  postFields : Option Chars
  postFieldSize : Option Nat
  customRequest : Option Method

namespace CurlOptions

/-- CUSTOMREQUEST and POSTFIELDS select the method. -/
def method (options : CurlOptions) : Method :=
  match options.customRequest with
  | some method => method
  | none => if options.postFields.isSome then .post else .get

/-- The bytes that curl sends as the body. -/
def body (options : CurlOptions) : Bytes :=
  match options.postFields with
  | none => []
  | some fields =>
      match options.postFieldSize with
      | none => fields.text
      | some size => (fields.text ++ 0 :: fields.beyond).take size

end CurlOptions

/-- The response to a call: the chunks that curl_easy_perform gives to Callback, those of
redirections first, and the status at the end, or none if curl_easy_perform fails. -/
structure Response where
  redirects : List (List Chunk)
  chunks : List Chunk
  httpCode : Option {code : Nat // code / 100 ≠ 3}

/-- All chunks that Callback is given. -/
def Response.all (response : Response) : List Chunk :=
  response.redirects.flatten ++ response.chunks

/-- A client with its host. -/
structure HttpClient where
  host : Bytes
  resData : Bytes
  curl : CurlOptions

/-- What a call sends, and what its callback is given. -/
structure Exchange where
  url : Bytes
  method : Method
  body : Bytes
  errcode : Nat
  data : Bytes

/-- A parameter that is not NULL and not empty. -/
def given (param : Option Chars) : Option Chars :=
  param.filter fun param => 0 < param.text.length

/-- The parameter path, or nothing. -/
def pathParam (path : Option Chars) : Bytes :=
  match given path with
  | some path => path.text
  | none => []

/-- What Callback appends for a chunk. -/
def Chunk.appended (chunk : Chunk) : Bytes :=
  (chunk.bytes ++ chunk.beyond).cString

namespace HttpClient

/-- The constructor. -/
def create (host : Bytes) : HttpClient where
  host := host
  resData := []
  curl := { postFields := none, postFieldSize := none, customRequest := none }

/-- HttpRequest. A redirection is performed again, and the status of a failure is 500. -/
def httpRequest (client : HttpClient) (path : Bytes) (response : Response) :
    HttpClient × Exchange :=
  let resData := client.resData ++ response.all.flatMap Chunk.appended
  ({ client with resData := resData },
    { url := if path = [] then client.host else client.host ++ 0x2F :: path
      method := client.curl.method
      body := client.curl.body
      errcode := match response.httpCode with
        | some code => code.1
        | none => 500
      data := resData.cString })

/-- Get. -/
def get (client : HttpClient) (path param : Option Chars) (response : Response) :
    HttpClient × Exchange :=
  let path := match given param with
    | some param => pathParam path ++ 0x3F :: param.text
    | none => pathParam path
  client.httpRequest path response

/-- Post. -/
def post (client : HttpClient) (path param : Option Chars) (response : Response) :
    HttpClient × Exchange :=
  let curl := match given param with
    | some param =>
        { client.curl with postFields := some param, postFieldSize := some param.text.length }
    | none => { client.curl with postFieldSize := some 0 }
  httpRequest { client with curl := curl } (pathParam path) response

/-- What Put and Delete do. -/
def custom (method : Method) (client : HttpClient) (path param : Option Chars)
    (response : Response) : HttpClient × Exchange :=
  let curl := match given param with
    | some param => { client.curl with postFields := some param }
    | none => client.curl
  httpRequest { client with curl := { curl with customRequest := some method } }
    (pathParam path) response

/-- Put. -/
def put : HttpClient → Option Chars → Option Chars → Response → HttpClient × Exchange :=
  custom .put

/-- Delete. -/
def delete : HttpClient → Option Chars → Option Chars → Response → HttpClient × Exchange :=
  custom .delete

end HttpClient

/-- A call with its arguments, and the response to it. -/
structure ClientCall where
  method : Method
  path : Option Chars
  param : Option Chars
  response : Response

namespace ClientCall

/-- Make the call on a client. -/
def on (call : ClientCall) (client : HttpClient) : HttpClient × Exchange :=
  match call.method with
  | .get => client.get call.path call.param call.response
  | .post => client.post call.path call.param call.response
  | .put => client.put call.path call.param call.response
  | .delete => client.delete call.path call.param call.response

/-- One call of a run. -/
def step (client : HttpClient) (call : ClientCall) : Option HttpClient :=
  some (call.on client).1

/-- The chunks of the response up to its first zero byte. -/
def data (call : ClientCall) : Bytes :=
  Bytes.cString (call.response.all.flatMap Chunk.bytes)

/-- The call sends what it sends as the first one on a new client, and its callback gets the
data of its response. -/
def Independent (client : HttpClient) (call : ClientCall) : Prop :=
  (call.on client).2.method = (call.on (HttpClient.create client.host)).2.method ∧
    (call.on client).2.body = (call.on (HttpClient.create client.host)).2.body ∧
      (call.on client).2.data = call.data

/-- Every chunk in front of the first zero byte of the response is followed by a zero byte,
and the chunks behind it begin with one. -/
def Terminated : List Chunk → Prop
  | [] => True
  | chunk :: chunks =>
      if 0 ∈ chunk.bytes then ∀ later ∈ chunks, later.appended = []
      else Bytes.cString chunk.beyond = [] ∧ Terminated chunks

/-- The options that the call uses and does not set are as in a new handle. -/
def UsesOwn (client : HttpClient) (call : ClientCall) : Prop :=
  match call.method with
  | .get => client.curl.postFields.isNone ∧ client.curl.customRequest = none
  | .post =>
      client.curl.customRequest = none ∧
        (given call.param = none → client.curl.postFields.isNone)
  | _ =>
      match given call.param with
      | some param =>
          client.curl.postFieldSize = none ∨
            client.curl.postFieldSize = some param.text.length
      | none => client.curl.postFields.isNone ∨ client.curl.postFieldSize = some 0

/-- The call uses its own options only, no data is left from earlier responses, and the
chunks of its own one end where they should. -/
def Keeps (client : HttpClient) (call : ClientCall) : Prop :=
  UsesOwn client call ∧ client.resData = [] ∧ Terminated call.response.all

section Data

theorem Chunk.appended_eq
    (chunk : Chunk) :
    chunk.appended =
      if 0 ∈ chunk.bytes then chunk.bytes.cString
      else chunk.bytes ++ Bytes.cString chunk.beyond :=
  Bytes.cString_append chunk.bytes chunk.beyond

theorem cString_flatMap_cons
    (chunk : Chunk) (chunks : List Chunk) :
    Bytes.cString ((chunk :: chunks).flatMap Chunk.bytes) =
      if 0 ∈ chunk.bytes then chunk.bytes.cString
      else chunk.bytes ++ Bytes.cString (chunks.flatMap Chunk.bytes) := by
  rw [List.flatMap_cons]
  exact Bytes.cString_append _ _

/-- Callback appends no less than the response has up to its first zero byte. -/
theorem length_data_le
    (chunks : List Chunk) :
    (Bytes.cString (chunks.flatMap Chunk.bytes)).length ≤
      (chunks.flatMap Chunk.appended).length := by
  induction chunks with
  | nil =>
      exact Nat.le_refl 0
  | cons chunk chunks ih =>
      rw [cString_flatMap_cons, List.flatMap_cons, List.length_append, Chunk.appended_eq]
      split_ifs
      · exact Nat.le_add_right _ _
      · rw [List.length_append, List.length_append]
        omega

/-- The data is that of the response if nothing was there before and the chunks end where
they should. The induction is on the chunks: what is appended too much can not be made up
for, as the lengths show. -/
theorem append_eq_data_iff
    (left : Bytes) (chunks : List Chunk) :
    left ++ chunks.flatMap Chunk.appended = Bytes.cString (chunks.flatMap Chunk.bytes) ↔
      left = [] ∧ Terminated chunks := by
  induction chunks generalizing left with
  | nil =>
      simp [Terminated, Bytes.cString]
  | cons chunk chunks ih =>
      rw [cString_flatMap_cons, List.flatMap_cons, Chunk.appended_eq, Terminated]
      split_ifs with hzero
      · constructor
        · intro heq
          have hlength := congrArg List.length heq
          simp only [List.length_append] at hlength
          have hleft : left = [] := List.eq_nil_of_length_eq_zero (by omega)
          have hlater : chunks.flatMap Chunk.appended = [] :=
            List.eq_nil_of_length_eq_zero (by omega)
          exact ⟨hleft, List.flatMap_eq_nil_iff.mp hlater⟩
        · rintro ⟨rfl, hlater⟩
          rw [List.flatMap_eq_nil_iff.mpr hlater, List.append_nil, List.nil_append]
      · constructor
        · intro heq
          have hless := length_data_le chunks
          have hlength := congrArg List.length heq
          simp only [List.length_append] at hlength
          have hleft : left = [] := List.eq_nil_of_length_eq_zero (by omega)
          have hbeyond : Bytes.cString chunk.beyond = [] :=
            List.eq_nil_of_length_eq_zero (by omega)
          rw [hleft, hbeyond, List.append_nil, List.nil_append,
            List.append_cancel_left_eq] at heq
          exact ⟨hleft, hbeyond, ((ih []).mp heq).2⟩
        · rintro ⟨rfl, hbeyond, hlater⟩
          rw [hbeyond, List.append_nil, List.nil_append, List.append_cancel_left_eq]
          exact (ih []).mpr ⟨rfl, hlater⟩

theorem zero_notMem_appended
    (chunks : List Chunk) :
    0 ∉ chunks.flatMap Chunk.appended := by
  intro hzero
  obtain ⟨chunk, _, hchunk⟩ := List.mem_flatMap.mp hzero
  exact Bytes.zero_notMem_cString _ hchunk

end Data

/-- What every client has: no zero byte in the data, fields that are not empty, and no other
names of methods than the two that are set. -/
structure Sound (client : HttpClient) : Prop where
  zero_notMem : 0 ∉ client.resData
  fields_ne_nil : ∀ fields, client.curl.postFields = some fields → fields.text ≠ []
  custom : ∀ method, client.curl.customRequest = some method → method = .put ∨ method = .delete

section Calls

variable {client : HttpClient} {call : ClientCall}

theorem sound_create
    (host : Bytes) :
    Sound (HttpClient.create host) where
  zero_notMem := List.not_mem_nil
  fields_ne_nil _ h := by
    cases h
  custom _ h := by
    cases h

theorem text_ne_nil_of_given
    {param : Option Chars} {p : Chars}
    (h : given param = some p) :
    p.text ≠ [] := by
  have hpos := (Option.filter_eq_some_iff.mp h).2
  simp only [decide_eq_true_eq] at hpos
  exact List.ne_nil_of_length_pos hpos

/-- Performing the request keeps the options, and what it appends has no zero byte. -/
theorem Sound.httpRequest
    (hsound : Sound client)
    (path : Bytes) (response : Response) :
    Sound (client.httpRequest path response).1 where
  zero_notMem hzero := by
    rcases List.mem_append.mp hzero with hleft | hnew
    · exact hsound.zero_notMem hleft
    · exact zero_notMem_appended _ hnew
  fields_ne_nil := hsound.fields_ne_nil
  custom := hsound.custom

theorem Sound.setPost
    (hsound : Sound client)
    {param : Option Chars} {p : Chars}
    (hparam : given param = some p)
    (size : Option Nat) :
    Sound { client with
      curl := { client.curl with postFields := some p, postFieldSize := size } } where
  zero_notMem := hsound.zero_notMem
  fields_ne_nil fields h := by
    cases h
    exact text_ne_nil_of_given hparam
  custom := hsound.custom

theorem Sound.setSize
    (hsound : Sound client)
    (size : Option Nat) :
    Sound { client with curl := { client.curl with postFieldSize := size } } where
  zero_notMem := hsound.zero_notMem
  fields_ne_nil := hsound.fields_ne_nil
  custom := hsound.custom

theorem Sound.setCustom
    (hsound : Sound client)
    {method : Method}
    (hmethod : method = .put ∨ method = .delete) :
    Sound { client with curl := { client.curl with customRequest := some method } } where
  zero_notMem := hsound.zero_notMem
  fields_ne_nil := hsound.fields_ne_nil
  custom _ h := by
    cases h
    exact hmethod

theorem Sound.post
    (hsound : Sound client)
    (path param : Option Chars) (response : Response) :
    Sound (client.post path param response).1 := by
  unfold HttpClient.post
  cases hparam : given param with
  | none =>
      exact (hsound.setSize _).httpRequest _ _
  | some p =>
      exact (hsound.setPost hparam _).httpRequest _ _

theorem Sound.customCall
    (hsound : Sound client)
    {method : Method}
    (hmethod : method = .put ∨ method = .delete)
    (path param : Option Chars) (response : Response) :
    Sound (HttpClient.custom method client path param response).1 := by
  unfold HttpClient.custom
  cases hparam : given param with
  | none =>
      exact (hsound.setCustom hmethod).httpRequest _ _
  | some p =>
      exact ((hsound.setPost hparam _).setCustom hmethod).httpRequest _ _

/-- Every call leaves a client as it should be. -/
theorem Sound.on
    (hsound : Sound client)
    (call : ClientCall) :
    Sound (call.on client).1 := by
  unfold ClientCall.on
  cases call.method with
  | get =>
      exact hsound.httpRequest _ _
  | post =>
      exact hsound.post _ _ _
  | put =>
      exact hsound.customCall (.inl rfl) _ _ _
  | delete =>
      exact hsound.customCall (.inr rfl) _ _ _

/-- With a size the fields are sent as the text if the size is its length. -/
theorem take_text_iff
    (p : Chars) (size : Nat) :
    (p.text ++ 0 :: p.beyond).take size = p.text ↔ size = p.text.length := by
  constructor
  · intro heq
    have hlength := congrArg List.length heq
    simp only [List.length_take, List.length_append, List.length_cons] at hlength
    omega
  · rintro rfl
    exact List.take_left

/-- What Get sends. Fields to post or the name of a method would make another request of it. -/
theorem get_iff
    (hsound : Sound client)
    (path param : Option Chars) (response : Response) :
    ((client.get path param response).2.method = .get ∧
      (client.get path param response).2.body = []) ↔
      client.curl.postFields.isNone ∧ client.curl.customRequest = none := by
  change client.curl.method = .get ∧ client.curl.body = [] ↔ _
  unfold CurlOptions.method CurlOptions.body
  cases hcustom : client.curl.customRequest with
  | some method =>
      rcases hsound.custom method hcustom with rfl | rfl <;> simp
  | none =>
      cases client.curl.postFields <;> simp

/-- What Post sends with a parameter. -/
theorem post_some_iff
    (hsound : Sound client)
    {param : Option Chars} {p : Chars}
    (hparam : given param = some p)
    (path : Option Chars) (response : Response) :
    ((client.post path param response).2.method = .post ∧
      (client.post path param response).2.body = p.text) ↔
      client.curl.customRequest = none := by
  have hbody : (p.text ++ 0 :: p.beyond).take p.text.length = p.text :=
    (take_text_iff p _).mpr rfl
  simp only [HttpClient.post, hparam, HttpClient.httpRequest, CurlOptions.method,
    CurlOptions.body, hbody, and_true]
  cases hcustom : client.curl.customRequest with
  | some method =>
      rcases hsound.custom method hcustom with rfl | rfl <;> simp
  | none =>
      simp

/-- What Post sends without a parameter: it sets a size only, and that makes no POST of the
request. -/
theorem post_none_iff
    (hsound : Sound client)
    {param : Option Chars}
    (hparam : given param = none)
    (path : Option Chars) (response : Response) :
    ((client.post path param response).2.method = .get ∧
      (client.post path param response).2.body = []) ↔
      client.curl.customRequest = none ∧ client.curl.postFields.isNone := by
  simp only [HttpClient.post, hparam, HttpClient.httpRequest, CurlOptions.method,
    CurlOptions.body]
  cases hcustom : client.curl.customRequest with
  | some method =>
      rcases hsound.custom method hcustom with rfl | rfl <;> simp
  | none =>
      cases client.curl.postFields <;> simp

/-- What Put and Delete send with a parameter: they do not set its size. -/
theorem custom_some_iff
    (method : Method)
    {param : Option Chars} {p : Chars}
    (hparam : given param = some p)
    (path : Option Chars) (response : Response) :
    (HttpClient.custom method client path param response).2.body = p.text ↔
      client.curl.postFieldSize = none ∨ client.curl.postFieldSize = some p.text.length := by
  simp only [HttpClient.custom, hparam, HttpClient.httpRequest, CurlOptions.body]
  cases client.curl.postFieldSize with
  | none =>
      simp
  | some size =>
      simp [take_text_iff]

/-- What Put and Delete send without a parameter: they set no fields. -/
theorem custom_none_iff
    (hsound : Sound client)
    (method : Method)
    {param : Option Chars}
    (hparam : given param = none)
    (path : Option Chars) (response : Response) :
    (HttpClient.custom method client path param response).2.body = [] ↔
      client.curl.postFields.isNone ∨ client.curl.postFieldSize = some 0 := by
  simp only [HttpClient.custom, hparam, HttpClient.httpRequest, CurlOptions.body]
  cases hfields : client.curl.postFields with
  | none =>
      simp
  | some fields =>
      have hne := hsound.fields_ne_nil fields hfields
      cases client.curl.postFieldSize with
      | none =>
          simp [hne]
      | some size =>
          simp

/-- What Put and Delete send is the same as on a new client, if nothing is left that they use. -/
theorem custom_iff
    (hsound : Sound client)
    (method : Method)
    (path param : Option Chars) (response : Response) :
    (HttpClient.custom method client path param response).2.body =
        (HttpClient.custom method (HttpClient.create client.host) path param response).2.body ↔
      match given param with
      | some param =>
          client.curl.postFieldSize = none ∨
            client.curl.postFieldSize = some param.text.length
      | none => client.curl.postFields.isNone ∨ client.curl.postFieldSize = some 0 := by
  cases hparam : given param with
  | none =>
      have hnew := (custom_none_iff (sound_create client.host) method hparam path response).mpr
        (.inl rfl)
      rw [hnew]
      exact custom_none_iff hsound method hparam path response
  | some p =>
      have hnew := (@custom_some_iff (HttpClient.create client.host) method _ _ hparam path
        response).mpr (.inl rfl)
      rw [hnew]
      exact custom_some_iff method hparam path response

/-- A call sends what it sends on a new client if it finds nothing that it uses. -/
theorem usesOwn_iff
    (hsound : Sound client)
    (call : ClientCall) :
    ((call.on client).2.method = (call.on (HttpClient.create client.host)).2.method ∧
      (call.on client).2.body = (call.on (HttpClient.create client.host)).2.body) ↔
      UsesOwn client call := by
  obtain ⟨method, path, param, response⟩ := call
  cases method with
  | get =>
      exact get_iff hsound path param response
  | post =>
      change ((client.post path param response).2.method =
          ((HttpClient.create client.host).post path param response).2.method ∧
        (client.post path param response).2.body =
          ((HttpClient.create client.host).post path param response).2.body) ↔
        client.curl.customRequest = none ∧ (given param = none → client.curl.postFields.isNone)
      cases hparam : given param with
      | none =>
          obtain ⟨hmethod, hbody⟩ := (post_none_iff (sound_create client.host) hparam path
            response).mpr ⟨rfl, rfl⟩
          rw [hmethod, hbody, post_none_iff hsound hparam]
          simp
      | some p =>
          obtain ⟨hmethod, hbody⟩ := (post_some_iff (sound_create client.host) hparam path
            response).mpr rfl
          rw [hmethod, hbody, post_some_iff hsound hparam]
          simp
  | put =>
      exact (and_iff_right rfl).trans (custom_iff hsound .put path param response)
  | delete =>
      exact (and_iff_right rfl).trans (custom_iff hsound .delete path param response)

/-- Every call appends what Callback is given to the data. -/
theorem on_data
    (client : HttpClient) (call : ClientCall) :
    (call.on client).2.data =
      Bytes.cString (client.resData ++ call.response.all.flatMap Chunk.appended) := by
  obtain ⟨method, path, param, response⟩ := call
  cases method <;> rfl

/-- In the states that a client reaches a call is independent of the calls before if it finds
nothing of them. -/
theorem independent_iff
    (hsound : Sound client)
    (call : ClientCall) :
    Independent client call ↔ Keeps client call := by
  have hzero : 0 ∉ client.resData ++ call.response.all.flatMap Chunk.appended := by
    rw [List.mem_append]
    exact not_or.mpr ⟨hsound.zero_notMem, zero_notMem_appended _⟩
  have hdata : (call.on client).2.data = call.data ↔
      client.resData = [] ∧ Terminated call.response.all := by
    rw [on_data, Bytes.cString_of_notMem hzero]
    exact append_eq_data_iff _ _
  unfold Independent Keeps
  rw [← and_assoc, usesOwn_iff hsound, hdata]

end Calls

/-- The calls of a run are independent of each other, and each callback gets the data of its
own response, exactly if each call finds no option that it uses and no data, and its chunks
end in memory where they should. -/
theorem calls_independent_iff
    (host : Bytes) (calls : List ClientCall) :
    Transition.Along step Independent (HttpClient.create host) calls ↔
      Transition.Along step Keeps (HttpClient.create host) calls := by
  refine Transition.along_iff (D := fun _ _ => True) Sound ?_ ?_ (sound_create host)
    (Transition.along_of_forall (fun _ _ => trivial) _ _)
  · intro client call hsound _
    exact independent_iff hsound call
  · intro client call client' hsound _ _ hstep
    cases hstep
    exact hsound.on call

/-- Two calls of Get, with the responses "a" and "b", that both end with a zero byte in memory.
The second callback gets "ab". -/
def twoGets : List ClientCall :=
  [0x61, 0x62].map fun c =>
    { method := .get
      path := none
      param := none
      response :=
        { redirects := []
          chunks := [{ bytes := [c], beyond := [0] }]
          httpCode := some ⟨200, by decide⟩ } }

theorem calls_not_independent :
    ¬ Transition.Along step Independent (HttpClient.create []) twoGets := by
  rintro ⟨-, hrest⟩
  obtain ⟨⟨-, -, hdata⟩, -⟩ := hrest _ rfl
  exact absurd hdata (by decide)

end ClientCall

end Http
end Gamnet
