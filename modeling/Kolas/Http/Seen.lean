import Kolas.Http.Idempotent

/-!
# What a handler sees

A handler decodes the query and the body that `TrimStrings` hands on, as the middleware
decoded those it was given.  `Seen` is what comes of that: the pairs of the query, and the
JSON value, the pairs of the form or the bytes of the body.

* `queryPairs_trimmedUri`: the pairs of the query are trimmed.
* `seen_of_forwarded`: whatever the request, a handler sees of it what it would have seen
  without the middleware, trimmed.

A pair or a value that has been lost to the encoding would show here; an empty form and no
form are the same to a handler.
-/

namespace Kolas.Http

open Kolas.Lib Kolas.Schedule

variable {ν : Type}

/-- An empty text has no pairs and is no JSON. -/
structure Codecs.Empties (C : Codecs ν) : Prop where
  form : ∀ pairs, C.formFromBytes [] = some pairs → pairs = []
  json : C.jsonFromSlice [] = none

/-- The URI can be put together again with an encoded query, and without one. -/
structure Uri.Rebuilt (uri : Uri) (C : Codecs ν) : Prop where
  withQuery : ∀ pairs, ∃ pq uri', C.parsePathAndQuery (uri.path ++ "?" ++ C.formToString pairs) =
    some pq ∧ C.fromParts { uri with pathAndQuery := some pq } = some uri'
  pathOnly : ∃ pq uri', C.parsePathAndQuery uri.path = some pq ∧
    C.fromParts { uri with pathAndQuery := some pq } = some uri'

/-- What is decoded of a request. -/
structure Seen (ν : Type) where
  query : List (String × String)
  json : Option (Json ν)
  form : List (String × String)
  raw : List UInt8

variable (C : Codecs ν)

def queryPairs (uri : Uri) : List (String × String) :=
  (uri.query.bind fun q => C.formFromBytes (utf8 q)).getD []

/-- A decoded body, with the bytes it was decoded from. -/
def Decoded.json? : Decoded ν → Option (Json ν)
  | .json v => some v
  | _ => none

def Decoded.pairs : Decoded ν → List (String × String)
  | .form pairs => pairs
  | _ => []

def Decoded.raw (bytes : List UInt8) : Decoded ν → List UInt8
  | .plain => bytes
  | _ => []

def Request.seen (request : Request) : Seen ν :=
  let decoded := decode C request.contentType request.body.bytes
  ⟨queryPairs C request.uri, decoded.json?, decoded.pairs, decoded.raw request.body.bytes⟩

/-- The query is trimmed, and the body as well if requests of the method have one. -/
def Seen.trimmed (method : Method) (seen : Seen ν) : Seen ν :=
  if method.hasBody then
    ⟨trimFormPairs seen.query, seen.json.map (trimValue none), trimFormPairs seen.form, seen.raw⟩
  else { seen with query := trimFormPairs seen.query }

variable {C}

/-! ### The query -/

theorem trimmedUri_of_changed {uri uri' : Uri} {q : String} {pq : PathAndQuery}
    (hq : uri.query = some q) (hne : trimQueryString C q ≠ q)
    (hpq : C.parsePathAndQuery (if (trimQueryString C q).isEmpty then uri.path
      else uri.path ++ "?" ++ trimQueryString C q) = some pq)
    (hparts : C.fromParts { uri with pathAndQuery := some pq } = some uri') :
    trimmedUri C uri = uri' := by
  simp only [trimmedUri, trimQueryInUri, hq, Option.bind_eq_bind, Option.bind_some, if_neg hne,
    hpq, hparts, Option.getD_some]

/-- **The pairs of the query are trimmed.** -/
theorem queryPairs_trimmedUri (hC : C.RoundTrips) (hempty : C.Empties) {uri : Uri}
    (hpath : uri.PathEnds) (hrebuilt : uri.Rebuilt C) :
    queryPairs C (trimmedUri C uri) = trimFormPairs (queryPairs C uri) := by
  cases hq : uri.query with
  | none =>
    have hsame : trimmedUri C uri = uri := by simp [trimmedUri, trimQueryInUri, hq]
    rw [hsame, queryPairs, hq]
    rfl
  | some q =>
    cases hpairs : C.formFromBytes (utf8 q) with
    | none =>
      have hnew : trimQueryString C q = q := by rw [trimQueryString, hpairs]
      have hsame : trimmedUri C uri = uri := by simp [trimmedUri, trimQueryInUri, hq, hnew]
      rw [hsame, queryPairs, hq, Option.bind_some, hpairs]
      rfl
    | some pairs =>
      have hold : queryPairs C uri = pairs := by
        rw [queryPairs, hq, Option.bind_some, hpairs]
        rfl
      have hnew : trimQueryString C q = C.formToString (trimFormPairs pairs) := by
        rw [trimQueryString, hpairs]
      have hagain : C.formFromBytes (utf8 (trimQueryString C q)) = some (trimFormPairs pairs) :=
        hnew ▸ hC.form _ _ hpairs
      rw [hold]
      by_cases hsame : trimQueryString C q = q
      · have huri : trimmedUri C uri = uri := by simp [trimmedUri, trimQueryInUri, hq, hsame]
        rw [hsame, hpairs] at hagain
        rw [huri, hold, ← Option.some.inj hagain]
      · by_cases hgone : (trimQueryString C q).isEmpty = true
        · -- the query has gone, and with it no pairs
          obtain ⟨pq, uri', hpq, hparts⟩ := hrebuilt.pathOnly
          have huri : trimmedUri C uri = uri' :=
            trimmedUri_of_changed hq hsame (by rw [if_pos hgone, hpq]) hparts
          obtain rfl := hC.parts _ _ hparts
          have hnone : pq.query = none := hC.pathOnly _ _ hpath.1 hpath.2 hpq
          rw [String.isEmpty_iff.mp hgone] at hagain
          rw [huri, queryPairs, hempty.form _ hagain]
          show ((pq.query).bind _).getD [] = []
          rw [hnone]
          rfl
        · obtain ⟨pq, uri', hpq, hparts⟩ := hrebuilt.withQuery (trimFormPairs pairs)
          rw [← hnew] at hpq
          have huri : trimmedUri C uri = uri' :=
            trimmedUri_of_changed hq hsame (by rw [if_neg hgone, hpq]) hparts
          obtain rfl := hC.parts _ _ hparts
          have hsome : pq.query = some (trimQueryString C q) :=
            hC.withQuery _ _ _ hpath.1 hpath.2 (noFragment_trimQueryString hC hsame) hpq
          rw [huri, queryPairs]
          show ((pq.query).bind _).getD [] = _
          rw [hsome, Option.bind_some, hagain]
          rfl

/-! ### The body -/

/-- **What has been decoded is decoded again, trimmed.** -/
theorem decode_trimmedBytes (hC : C.RoundTrips) (hempty : C.Empties) (contentType : Option String)
    (bytes : List UInt8) :
    (decode C contentType (trimmedBytes C contentType bytes)).json? =
        (decode C contentType bytes).json?.map (trimValue none) ∧
      (decode C contentType (trimmedBytes C contentType bytes)).pairs =
        trimFormPairs (decode C contentType bytes).pairs ∧
      (decode C contentType (trimmedBytes C contentType bytes)).raw
        (trimmedBytes C contentType bytes) = (decode C contentType bytes).raw bytes := by
  rcases decode_cases C contentType bytes with ⟨v, hdecode, hv, hagain⟩ |
    ⟨pairs, hdecode, hpairs, hagain⟩ | hdecode
  · have hnew : trimmedBytes C contentType bytes = C.jsonToVec (trimValue none v) := by
      rw [trimmedBytes, hdecode, encodeTrimmed]
    have hjson := hC.json _ _ hv
    have hne : C.jsonToVec (trimValue none v) ≠ [] := by
      intro hnil
      rw [hnil, hempty.json] at hjson
      cases hjson
    rw [hnew, hagain _ hne, hjson, hdecode]
    exact ⟨rfl, rfl, rfl⟩
  · have hnew : trimmedBytes C contentType bytes =
        utf8 (C.formToString (trimFormPairs pairs)) := by
      rw [trimmedBytes, hdecode, encodeTrimmed]
    have hform := hC.form _ _ hpairs
    rw [hnew]
    by_cases hnil : utf8 (C.formToString (trimFormPairs pairs)) = []
    · -- a form without pairs is encoded as nothing
      have hplain : decode C contentType [] = .plain := by
        cases contentType with
        | none => rfl
        | some ct => rw [decode, if_pos rfl]
      rw [hnil] at hform ⊢
      rw [hplain, hdecode]
      exact ⟨rfl, (hempty.form _ hform).symm, rfl⟩
    · rw [hagain _ hnil, hform, hdecode]
      exact ⟨rfl, rfl, rfl⟩
  · have hsame : trimmedBytes C contentType bytes = bytes := by
      rw [trimmedBytes, hdecode, encodeTrimmed]
    rw [hsame, hdecode]
    exact ⟨rfl, rfl, rfl⟩

/-- The method and the headers are left as they are. -/
theorem kept_of_forwarded {request next : Request} (h : handle C request = .forwarded next) :
    next.method = request.method ∧ next.headers = request.headers := by
  rw [handle_eq] at h
  split at h
  · obtain rfl := Outcome.forwarded.inj h
    exact ⟨rfl, rfl⟩
  · split at h
    · cases h
    · obtain rfl := Outcome.forwarded.inj h
      exact ⟨rfl, rfl⟩

/-- **What a handler sees is trimmed.** -/
theorem seen_of_forwarded (hC : C.RoundTrips) (hempty : C.Empties) {request next : Request}
    (hpath : request.uri.PathEnds) (hrebuilt : request.uri.Rebuilt C)
    (h : handle C request = .forwarded next) :
    next.seen C = (request.seen C).trimmed request.method := by
  have hquery := queryPairs_trimmedUri hC hempty hpath hrebuilt
  rw [handle_eq] at h
  split at h
  · rename_i hmethod
    obtain rfl := Outcome.forwarded.inj h
    rw [Seen.trimmed, hmethod]
    show (⟨queryPairs C (trimmedUri C request.uri), _, _, _⟩ : Seen ν) = _
    rw [hquery]
    rfl
  · rename_i hmethod
    split at h
    · cases h
    · rename_i bytes hbytes
      obtain rfl := Outcome.forwarded.inj h
      obtain ⟨-, -, hbody⟩ := toBytes_eq_some_iff.mp hbytes
      obtain ⟨hjson, hform, hraw⟩ := decode_trimmedBytes hC hempty request.contentType bytes
      rw [Seen.trimmed, if_pos (Bool.not_eq_false _ ▸ hmethod)]
      show (⟨queryPairs C (trimmedUri C request.uri),
        (decode C request.contentType (trimmedBytes C request.contentType bytes)).json?,
        (decode C request.contentType (trimmedBytes C request.contentType bytes)).pairs,
        (decode C request.contentType (trimmedBytes C request.contentType bytes)).raw
          (trimmedBytes C request.contentType bytes)⟩ : Seen ν) = _
      rw [hquery, hjson, hform, hraw]
      show _ = (⟨trimFormPairs (queryPairs C request.uri),
        (decode C request.contentType request.body.bytes).json?.map (trimValue none),
        trimFormPairs (decode C request.contentType request.body.bytes).pairs,
        (decode C request.contentType request.body.bytes).raw request.body.bytes⟩ : Seen ν)
      rw [hbody]

end Kolas.Http
