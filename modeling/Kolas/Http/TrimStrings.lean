import Kolas.Http.Request
import Kolas.Lib.Words
import Kolas.Schedule.Frequency

/-!
# The `TrimStrings` middleware

`app/http/middleware/trim_strings.rs`.  The query of the URI, a JSON body and a form
are decoded, trimmed and encoded again; a body that does not decode, and one of any
other type, is handed on as it is.  The decoders, the encoders and the parts of
`http::Uri` are parameters, `Codecs`; the encoders do not fail on what they are given
here.

* `handle_eq`: the body that is handed on, by what the request's body is taken for.
-/

namespace Kolas.Http

open Kolas.Lib Kolas.Schedule

/-- `serde_json`, `serde_urlencoded` and `http::uri`; `ν` are the numbers of JSON. -/
structure Codecs (ν : Type) where
  jsonFromSlice : List UInt8 → Option (Json ν)
  jsonToVec : Json ν → List UInt8
  formFromBytes : List UInt8 → Option (List (String × String))
  formToString : List (String × String) → String
  parsePathAndQuery : String → Option PathAndQuery
  fromParts : Uri → Option Uri

def skipFields : List String := ["password", "password_confirmation"]

def maxBody : Nat := 2 * 1024 * 1024

/-- `str::trim`. -/
def trimText (s : String) : String := String.ofList (trim isWhitespace s.toList)

/-- The value is under a key that is listed in `skipFields`. -/
def isSkipped (parentKey : Option String) : Bool := parentKey.any skipFields.contains

variable {ν : Type}

mutual

def trimValue (parentKey : Option String) : Json ν → Json ν
  | .string s => if isSkipped parentKey then .string s else .string (trimText s)
  | .array items => .array (trimItems parentKey items)
  | .object map => .object (trimEntries map)
  | .null => .null
  | .bool b => .bool b
  | .number n => .number n

def trimItems (parentKey : Option String) : List (Json ν) → List (Json ν)
  | [] => []
  | v :: items => trimValue parentKey v :: trimItems parentKey items

def trimEntries : List (String × Json ν) → List (String × Json ν)
  | [] => []
  | (k, v) :: map => (k, trimValue (some k) v) :: trimEntries map

end

/-- One pair of `trim_form_pairs`. -/
def trimPair : String × String → String × String
  | (k, v) => (k, if skipFields.contains k then v else trimText v)

def trimFormPairs (pairs : List (String × String)) : List (String × String) := pairs.map trimPair

variable (C : Codecs ν)

def trimQueryString (q : String) : String :=
  match C.formFromBytes (utf8 q) with
  | none => q
  | some pairs => C.formToString (trimFormPairs pairs)

def trimQueryInUri (uri : Uri) : Option Uri := do
  let q ← uri.query
  let newQ := trimQueryString C q
  if newQ = q then none
  else
    let path := uri.path
    let pathAndQuery := if newQ.isEmpty then path else path ++ "?" ++ newQ
    let pq ← C.parsePathAndQuery pathAndQuery
    C.fromParts { uri with pathAndQuery := some pq }

/-- `str::starts_with`. -/
def startsWith (text pre : String) : Bool := pre.toList.isPrefixOf text.toList

def handle (request : Request) : Outcome :=
  let request := match trimQueryInUri C request.uri with
    | some newUri => { request with uri := newUri }
    | none => request
  if request.method ∉ [Method.post, .put, .patch] then .forwarded request
  else
    let contentType := (get request.headers "content-type").bind toStr
    match toBytes request.body maxBody with
    | none => .answered 413 "request body too large"
    | some bytes =>
      let newBody :=
        match contentType with
        | some ct =>
          if startsWith ct "application/json" && !bytes.isEmpty then
            match C.jsonFromSlice bytes with
            | some v => C.jsonToVec (trimValue none v)
            | none => bytes
          else if startsWith ct "application/x-www-form-urlencoded" && !bytes.isEmpty then
            match C.formFromBytes bytes with
            | some pairs => utf8 (C.formToString (trimFormPairs pairs))
            | none => bytes
          else bytes
        | none => bytes
      .forwarded { request with body := Body.of newBody }

/-! ### What a body is taken for -/

/-- A body that has been decoded, or is handed on as it is. -/
inductive Decoded (ν : Type)
  | json (v : Json ν)
  | form (pairs : List (String × String))
  | plain

/-- What the bytes are taken for, by the content type. -/
def decode (contentType : Option String) (bytes : List UInt8) : Decoded ν :=
  match contentType with
  | none => .plain
  | some ct =>
    if bytes = [] then .plain
    else if startsWith ct "application/json" then
      match C.jsonFromSlice bytes with
      | some v => .json v
      | none => .plain
    else if startsWith ct "application/x-www-form-urlencoded" then
      match C.formFromBytes bytes with
      | some pairs => .form pairs
      | none => .plain
    else .plain

/-- What is decoded is trimmed and encoded again. -/
def encodeTrimmed (bytes : List UInt8) : Decoded ν → List UInt8
  | .json v => C.jsonToVec (trimValue none v)
  | .form pairs => utf8 (C.formToString (trimFormPairs pairs))
  | .plain => bytes

/-- The body that is handed on is chosen by what the bytes are taken for. -/
theorem encodeTrimmed_decode (contentType : Option String) (bytes : List UInt8) :
    encodeTrimmed C bytes (decode C contentType bytes) =
      match contentType with
      | some ct =>
        if startsWith ct "application/json" && !bytes.isEmpty then
          match C.jsonFromSlice bytes with
          | some v => C.jsonToVec (trimValue none v)
          | none => bytes
        else if startsWith ct "application/x-www-form-urlencoded" && !bytes.isEmpty then
          match C.formFromBytes bytes with
          | some pairs => utf8 (C.formToString (trimFormPairs pairs))
          | none => bytes
        else bytes
      | none => bytes := by
  unfold decode
  cases contentType with
  | none => rfl
  | some ct =>
    by_cases hempty : bytes = []
    · simp [hempty, encodeTrimmed]
    · have hnonempty : (!bytes.isEmpty) = true := by simpa using hempty
      dsimp only
      rw [if_neg hempty, hnonempty, Bool.and_true, Bool.and_true]
      by_cases hjson : startsWith ct "application/json" = true
      · rw [if_pos hjson, if_pos hjson]
        cases C.jsonFromSlice bytes with
        | some v => rfl
        | none => rfl
      · rw [if_neg hjson, if_neg hjson]
        by_cases hform : startsWith ct "application/x-www-form-urlencoded" = true
        · rw [if_pos hform, if_pos hform]
          cases C.formFromBytes bytes with
          | some pairs => rfl
          | none => rfl
        · rw [if_neg hform, if_neg hform]
          rfl

/-- The request's content type, if it is text. -/
def Request.contentType (request : Request) : Option String :=
  (get request.headers "content-type").bind toStr

/-- The request's URI with its query trimmed. -/
def trimmedUri (uri : Uri) : Uri := (trimQueryInUri C uri).getD uri

/-- The middleware may change bodies of requests of this method. -/
def Method.hasBody (method : Method) : Bool := method ∈ [Method.post, .put, .patch]

/-- **What the middleware does**: the method and the headers stay, the query is
trimmed, and the body is trimmed if it is decoded. -/
theorem handle_eq (request : Request) : handle C request =
    if request.method.hasBody = false then
      .forwarded { request with uri := trimmedUri C request.uri }
    else
      match toBytes request.body maxBody with
      | none => .answered 413 "request body too large"
      | some bytes => .forwarded { request with
          uri := trimmedUri C request.uri
          body := Body.of (encodeTrimmed C bytes (decode C request.contentType bytes)) } := by
  have huri : (match trimQueryInUri C request.uri with
      | some newUri => { request with uri := newUri }
      | none => request) = { request with uri := trimmedUri C request.uri } := by
    unfold trimmedUri
    cases trimQueryInUri C request.uri with
    | some newUri => rfl
    | none => rfl
  unfold handle
  rw [huri]
  unfold Method.hasBody
  dsimp only
  by_cases hbody : request.method ∈ [Method.post, .put, .patch]
  · rw [if_neg (not_not_intro hbody), if_neg (by simp [hbody])]
    cases toBytes request.body maxBody with
    | none => rfl
    | some bytes =>
      dsimp only
      rw [← encodeTrimmed_decode]
      rfl
  · rw [if_pos hbody, if_pos (by simp [hbody])]

end Kolas.Http
