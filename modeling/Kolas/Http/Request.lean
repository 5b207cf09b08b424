import Kolas.Lib.Digits
import Kolas.Lib.Json

/-!
# Requests

The requests a middleware is given, as `http` and `axum` have them: a header's name
is in lower case and its value is bytes, and a body is the bytes it carries, which
may break off.  The version and the extensions of a request are left out.
-/

namespace Kolas.Http

open Kolas.Lib

inductive Method
  | get | post | put | patch | delete | head | options | connect | trace
  | extension (name : String)
  deriving DecidableEq, Repr

structure PathAndQuery where
  path : String
  query : Option String
  deriving DecidableEq, Repr

/-- A `Uri`, which is its `Parts`. -/
structure Uri where
  scheme : Option String
  authority : Option String
  pathAndQuery : Option PathAndQuery
  deriving DecidableEq, Repr

def Uri.path (uri : Uri) : String := (uri.pathAndQuery.map PathAndQuery.path).getD ""

def Uri.query (uri : Uri) : Option String := uri.pathAndQuery.bind PathAndQuery.query

abbrev HeaderValue := List UInt8

/-- `HeaderValue::to_str`: visible ASCII characters, spaces and tabs. -/
def toStr (value : HeaderValue) : Option String :=
  if value.all fun b => b = 9 ∨ (32 ≤ b ∧ b < 127) then
    some (String.ofList (value.map fun b => Char.ofNat b.toNat))
  else none

/-- The headers in the order they are stored. -/
abbrev HeaderMap := List (String × HeaderValue)

/-- `HeaderMap::get`: the first value. -/
def get (headers : HeaderMap) (name : String) : Option HeaderValue := headers.lookup name

/-- The bytes a body carries; it may break off after them. -/
structure Body where
  bytes : List UInt8
  broken : Bool
  deriving DecidableEq, Repr

def Body.of (bytes : List UInt8) : Body := ⟨bytes, false⟩

/-- `to_bytes`: the whole body, if it does not break off or exceed the limit. -/
def toBytes (body : Body) (limit : Nat) : Option (List UInt8) :=
  if body.broken || limit < body.bytes.length then none else some body.bytes

theorem toBytes_eq_some_iff {body : Body} {limit : Nat} {bytes : List UInt8} :
    toBytes body limit = some bytes ↔
      body.broken = false ∧ body.bytes.length ≤ limit ∧ body.bytes = bytes := by
  unfold toBytes
  cases body.broken with
  | true => simp
  | false =>
    by_cases hlong : limit < body.bytes.length
    · simp [hlong, show ¬ body.bytes.length ≤ limit by omega]
    · simp [hlong, show body.bytes.length ≤ limit by omega]

/-- A body over the limit is not read. -/
theorem toBytes_of_long {body : Body} {limit : Nat} (h : limit < body.bytes.length) :
    toBytes body limit = none := by
  rw [Option.eq_none_iff_forall_ne_some]
  intro bytes hbytes
  have hfits := (toBytes_eq_some_iff.mp hbytes).2.1
  omega

structure Request where
  method : Method
  uri : Uri
  headers : HeaderMap
  body : Body
  deriving DecidableEq, Repr

/-- What a middleware does with a request: it hands one to `next`, or answers with a
status and a text. -/
inductive Outcome
  | forwarded (request : Request)
  | answered (status : Nat) (text : String)
  deriving DecidableEq, Repr

/-- A text as UTF-8. -/
def utf8 (s : String) : List UInt8 := s.toList.flatMap String.utf8EncodeChar

/-- The number in a `Content-Length`. -/
def lengthOf (value : HeaderValue) : Option Nat :=
  (toStr value).bind fun text => readNumber text.toList

/-- The `Content-Length` headers are the length of the body. -/
def Request.Consistent (request : Request) : Prop :=
  ∀ value, ("content-length", value) ∈ request.headers →
    lengthOf value = some request.body.bytes.length

end Kolas.Http
