import Kolas.Http.ContentLength
import Kolas.Http.Protected

/-!
# Trimming twice

What `TrimStrings` hands on it leaves as it is a second time (`handle_again`), if the
body it has encoded is not over the limit: a form may be three times as long
after it has been encoded again.

`RoundTrips` is what is used of the codecs.  What has been decoded and trimmed is
decoded again from its own encoding; a `?` or `#` is escaped in a form, and ends a
path; and `Uri::from_parts` puts a URI together from its parts.
-/

namespace Kolas.Http

open Kolas.Lib Kolas.Schedule

variable {ν : Type}

/-- What is used of the codecs. -/
structure Codecs.RoundTrips (C : Codecs ν) : Prop where
  json : ∀ bytes v, C.jsonFromSlice bytes = some v →
    C.jsonFromSlice (C.jsonToVec (trimValue none v)) = some (trimValue none v)
  form : ∀ bytes pairs, C.formFromBytes bytes = some pairs →
    C.formFromBytes (utf8 (C.formToString (trimFormPairs pairs))) = some (trimFormPairs pairs)
  noFragment : ∀ pairs, '#' ∉ (C.formToString pairs).toList
  withQuery : ∀ path q pq, '?' ∉ path.toList → '#' ∉ path.toList → '#' ∉ q.toList →
    C.parsePathAndQuery (path ++ "?" ++ q) = some pq → pq.query = some q
  pathOnly : ∀ path pq, '?' ∉ path.toList → '#' ∉ path.toList →
    C.parsePathAndQuery path = some pq → pq.query = none
  parts : ∀ uri uri', C.fromParts uri = some uri' → uri' = uri

/-- The path of a `Uri` ends before the first `?` and the first `#`. -/
def Uri.PathEnds (uri : Uri) : Prop := '?' ∉ uri.path.toList ∧ '#' ∉ uri.path.toList

/-! ### Trimmed values -/

theorem trimText_trimText (s : String) : trimText (trimText s) = trimText s := by
  unfold trimText
  rw [String.toList_ofList, trim_trim]

theorem trimNearest_trimNearest (keys : List String) (s : String) :
    trimNearest keys (trimNearest keys s) = trimNearest keys s := by
  unfold trimNearest
  split
  · rfl
  · exact trimText_trimText s

/-- **A trimmed value is trimmed.** -/
theorem trimValue_trimValue (v : Json ν) :
    trimValue none (trimValue none v) = trimValue none v := by
  have hvalue (w : Json ν) : trimValue none w = w.mapStrings trimNearest [] := trimValue_eq [] w
  rw [hvalue, hvalue, Json.mapStrings_mapStrings, Json.mapStrings_eq_iff]
  exact fun e _ => trimNearest_trimNearest e.1 e.2

theorem trimFormPairs_trimFormPairs (pairs : List (String × String)) :
    trimFormPairs (trimFormPairs pairs) = trimFormPairs pairs := by
  unfold trimFormPairs
  rw [List.map_map]
  refine List.map_congr_left fun pair _ => ?_
  obtain ⟨k, v⟩ := pair
  rw [Function.comp, trimPair, trimPair]
  split
  · rfl
  · rw [trimText_trimText]

/-! ### The query -/

variable {C : Codecs ν}

/-- A query that has been trimmed is not changed. -/
theorem trimQueryString_again (hC : C.RoundTrips) (q : String) :
    trimQueryString C (trimQueryString C q) = trimQueryString C q := by
  cases hq : C.formFromBytes (utf8 q) with
  | none =>
    have hsame : trimQueryString C q = q := by rw [trimQueryString, hq]
    rw [hsame, hsame]
  | some pairs =>
    have hnew : trimQueryString C q = C.formToString (trimFormPairs pairs) := by
      rw [trimQueryString, hq]
    rw [hnew, trimQueryString, hC.form _ _ hq]
    exact congrArg C.formToString (trimFormPairs_trimFormPairs pairs)

theorem noFragment_trimQueryString (hC : C.RoundTrips) {q : String}
    (h : trimQueryString C q ≠ q) : '#' ∉ (trimQueryString C q).toList := by
  unfold trimQueryString at h ⊢
  cases hq : C.formFromBytes (utf8 q) with
  | none =>
    rw [hq] at h
    exact absurd rfl h
  | some pairs => exact hC.noFragment _

/-- **What changing the query makes of a URI**: one whose query is trimmed, or has
gone. -/
theorem query_of_trimQueryInUri (hC : C.RoundTrips) {uri uri' : Uri} (hpath : uri.PathEnds)
    (h : trimQueryInUri C uri = some uri') :
    uri'.query = none ∨ ∃ q, uri'.query = some (trimQueryString C q) := by
  simp only [trimQueryInUri, Option.bind_eq_bind, Option.bind_eq_some_iff] at h
  obtain ⟨q, hq, h⟩ := h
  split at h
  · cases h
  rename_i hnew
  simp only [Option.bind_eq_some_iff] at h
  obtain ⟨pq, hpq, hparts⟩ := h
  obtain rfl := hC.parts _ _ hparts
  split at hpq
  · exact Or.inl (hC.pathOnly _ pq hpath.1 hpath.2 hpq)
  · exact Or.inr ⟨q, hC.withQuery _ _ pq hpath.1 hpath.2 (noFragment_trimQueryString hC hnew) hpq⟩

/-- **The query of a trimmed URI stays.** -/
theorem trimmedUri_trimmedUri (hC : C.RoundTrips) {uri : Uri} (hpath : uri.PathEnds) :
    trimmedUri C (trimmedUri C uri) = trimmedUri C uri := by
  cases huri : trimQueryInUri C uri with
  | none =>
    have hsame : trimmedUri C uri = uri := by rw [trimmedUri, huri, Option.getD_none]
    rw [hsame, hsame]
  | some uri' =>
    have hnew : trimmedUri C uri = uri' := by rw [trimmedUri, huri, Option.getD_some]
    have hstays : trimQueryInUri C uri' = none := by
      rcases query_of_trimQueryInUri hC hpath huri with hnone | ⟨q, hq⟩
      · simp [trimQueryInUri, hnone]
      · simp [trimQueryInUri, hq, trimQueryString_again hC q]
    rw [hnew, trimmedUri, hstays, Option.getD_none]

/-! ### The body -/

theorem decode_cases (C : Codecs ν) (contentType : Option String) (bytes : List UInt8) :
    (∃ v, decode C contentType bytes = .json v ∧ C.jsonFromSlice bytes = some v ∧
      ∀ bytes', bytes' ≠ [] → decode C contentType bytes' =
        match C.jsonFromSlice bytes' with
        | some v => .json v
        | none => .plain) ∨
    (∃ pairs, decode C contentType bytes = .form pairs ∧ C.formFromBytes bytes = some pairs ∧
      ∀ bytes', bytes' ≠ [] → decode C contentType bytes' =
        match C.formFromBytes bytes' with
        | some pairs => .form pairs
        | none => .plain) ∨
    decode C contentType bytes = .plain := by
  cases contentType with
  | none => exact Or.inr (Or.inr rfl)
  | some ct =>
    by_cases hempty : bytes = []
    · exact Or.inr (Or.inr (if_pos hempty))
    · simp only [decode, if_neg hempty]
      by_cases hjson : startsWith ct "application/json" = true
      · simp only [if_pos hjson]
        cases hv : C.jsonFromSlice bytes with
        | some v =>
          exact Or.inl ⟨v, rfl, rfl, fun bytes' hbytes' => if_neg hbytes'⟩
        | none => exact Or.inr (Or.inr rfl)
      · simp only [if_neg hjson]
        by_cases hform : startsWith ct "application/x-www-form-urlencoded" = true
        · simp only [if_pos hform]
          cases hpairs : C.formFromBytes bytes with
          | some pairs =>
            exact Or.inr (Or.inl ⟨pairs, rfl, rfl, fun bytes' hbytes' => if_neg hbytes'⟩)
          | none => exact Or.inr (Or.inr rfl)
        · exact Or.inr (Or.inr (if_neg hform))

/-- The body of the request after the middleware, if it has not changed it already. -/
def trimmedBytes (C : Codecs ν) (contentType : Option String) (bytes : List UInt8) : List UInt8 :=
  encodeTrimmed C bytes (decode C contentType bytes)

theorem trimmedBytes_nil (C : Codecs ν) (contentType : Option String) :
    trimmedBytes C contentType [] = [] := by
  cases contentType with
  | none => rfl
  | some ct => rw [trimmedBytes, decode, if_pos rfl, encodeTrimmed]

/-- **A trimmed body stays.** -/
theorem trimmedBytes_again (hC : C.RoundTrips) (contentType : Option String)
    (bytes : List UInt8) :
    trimmedBytes C contentType (trimmedBytes C contentType bytes) =
      trimmedBytes C contentType bytes := by
  by_cases hempty : trimmedBytes C contentType bytes = []
  · rw [hempty, trimmedBytes_nil]
  rcases decode_cases C contentType bytes with ⟨v, hdecode, hv, hagain⟩ |
    ⟨pairs, hdecode, hpairs, hagain⟩ | hdecode
  · have hnew : trimmedBytes C contentType bytes = C.jsonToVec (trimValue none v) := by
      rw [trimmedBytes, hdecode, encodeTrimmed]
    rw [hnew] at hempty ⊢
    rw [trimmedBytes, hagain _ hempty, hC.json _ _ hv, encodeTrimmed, trimValue_trimValue]
  · have hnew : trimmedBytes C contentType bytes =
        utf8 (C.formToString (trimFormPairs pairs)) := by
      rw [trimmedBytes, hdecode, encodeTrimmed]
    rw [hnew] at hempty ⊢
    rw [trimmedBytes, hagain _ hempty, hC.form _ _ hpairs, encodeTrimmed,
      trimFormPairs_trimFormPairs]
  · have hsame : trimmedBytes C contentType bytes = bytes := by
      rw [trimmedBytes, hdecode, encodeTrimmed]
    rw [hsame, hsame]

/-- **A forwarded request is forwarded as it is**, unless its body is over the limit. -/
theorem handle_again (hC : C.RoundTrips) {request next : Request} (hpath : request.uri.PathEnds)
    (h : handle C request = .forwarded next)
    (hsize : next.method.hasBody = true → next.body.bytes.length ≤ maxBody) :
    handle C next = .forwarded next := by
  rw [handle_eq] at h
  split at h
  · rename_i hmethod
    obtain rfl := Outcome.forwarded.inj h
    rw [handle_eq, if_pos hmethod]
    exact congrArg (fun uri => Outcome.forwarded { request with uri := uri })
      (trimmedUri_trimmedUri hC hpath)
  · rename_i hmethod
    split at h
    · cases h
    · rename_i bytes hbytes
      obtain rfl := Outcome.forwarded.inj h
      have hsmall : (trimmedBytes C request.contentType bytes).length ≤ maxBody :=
        hsize (Bool.not_eq_false _ ▸ hmethod)
      have hwhole : toBytes (Body.of (trimmedBytes C request.contentType bytes)) maxBody =
          some (trimmedBytes C request.contentType bytes) :=
        toBytes_eq_some_iff.mpr ⟨rfl, hsmall, rfl⟩
      have hbody : ({ request with
          uri := trimmedUri C request.uri
          body := Body.of (encodeTrimmed C bytes (decode C request.contentType bytes)) } :
            Request).body = Body.of (trimmedBytes C request.contentType bytes) := rfl
      rw [handle_eq, if_neg hmethod, hbody, hwhole]
      show Outcome.forwarded { request with
          uri := trimmedUri C (trimmedUri C request.uri)
          body := Body.of (trimmedBytes C request.contentType
            (trimmedBytes C request.contentType bytes)) } = _
      rw [trimmedUri_trimmedUri hC hpath, trimmedBytes_again hC]
      rfl

/-! ### Two forms -/

/-- `PathAndQuery::from_str` on texts it accepts: a fragment is dropped. -/
def parsePath (s : String) : PathAndQuery :=
  let chars := s.toList.takeWhile (· ≠ '#')
  match cut '?' chars with
  | none => ⟨String.ofList chars, none⟩
  | some (path, query) => ⟨String.ofList path, some (String.ofList query)⟩

theorem takeWhile_noFragment {l : List Char} (h : '#' ∉ l) : l.takeWhile (· ≠ '#') = l :=
  List.takeWhile_eq_self_iff.mpr fun _ hc => decide_eq_true fun heq => h (heq ▸ hc)

/-- The encoders of `twoBodies`, and a decoder that knows one form and its trimmed
encoding. -/
def oneForm (body : List UInt8) (pairs : List (String × String)) : Codecs Nat :=
  { twoBodies with
    jsonFromSlice := fun _ => none
    formFromBytes := fun bytes =>
      if bytes = utf8 (twoBodies.formToString (trimFormPairs pairs)) then
        some (trimFormPairs pairs)
      else if bytes = body then some pairs
      else none
    parsePathAndQuery := fun s => some (parsePath s) }

theorem hexDigit_plain : ∀ n < 16, hexDigit 65 n ≠ '#' := by decide

theorem formChars_plain (c : Char) : '#' ∉ formChars c := by
  unfold formChars
  split
  · rename_i h
    intro hmem
    obtain rfl := List.mem_singleton.mp hmem
    exact absurd h (by decide)
  · split
    · decide
    · intro hmem
      obtain ⟨b, -, hb⟩ := List.mem_flatMap.mp hmem
      have hlow : b.toNat / 16 < 16 := by
        have := b.toNat_lt
        omega
      have hhigh : b.toNat % 16 < 16 := by omega
      rcases List.mem_cons.mp hb with hb | hb
      · exact absurd hb (by decide)
      · rcases List.mem_cons.mp hb with hb | hb
        · exact hexDigit_plain _ hlow hb.symm
        · exact hexDigit_plain _ hhigh (List.mem_singleton.mp hb).symm

theorem notMem_intercalate {α : Type} {a sep : α} (hsep : a ≠ sep) {texts : List (List α)}
    (h : ∀ text ∈ texts, a ∉ text) : a ∉ [sep].intercalate texts := by
  induction texts with
  | nil => exact List.not_mem_nil
  | cons text texts ih =>
    obtain ⟨htext, htexts⟩ := List.forall_mem_cons.mp h
    cases texts with
    | nil =>
      rw [List.intercalate_singleton]
      exact htext
    | cons text' texts =>
      rw [List.intercalate_cons_cons]
      simp only [List.mem_append, List.mem_singleton, not_or]
      exact ⟨⟨htext, hsep⟩, ih htexts⟩

theorem oneForm_roundTrips (body : List UInt8) (pairs : List (String × String)) :
    (oneForm body pairs).RoundTrips where
  json bytes v h := by cases h
  form bytes decoded h := by
    have htrimmed : trimFormPairs decoded = trimFormPairs pairs := by
      simp only [oneForm] at h
      split at h
      · rw [← Option.some.inj h, trimFormPairs_trimFormPairs]
      · split at h
        · rw [Option.some.inj h]
        · cases h
    rw [htrimmed]
    exact if_pos rfl
  noFragment pairs := by
    show '#' ∉ (String.ofList _).toList
    rw [String.toList_ofList]
    refine notMem_intercalate (by decide) fun text htext => ?_
    obtain ⟨pair, -, rfl⟩ := List.mem_map.mp htext
    simp only [List.mem_append, List.mem_flatMap, not_or, not_exists, not_and]
    exact ⟨⟨fun c _ => formChars_plain c, by decide⟩, fun c _ => formChars_plain c⟩
  withQuery path q pq hquestion hfragment hq h := by
    obtain rfl := Option.some.inj h
    have hmark : "?".toList = ['?'] := by decide
    have hplain : '#' ∉ (path ++ "?" ++ q).toList := by
      simp only [String.toList_append, hmark, List.mem_append, not_or]
      exact ⟨⟨hfragment, by decide⟩, hq⟩
    have hcut : cut '?' (path ++ "?" ++ q).toList = some (path.toList, q.toList) := by
      rw [String.toList_append, String.toList_append, hmark, List.append_assoc]
      exact cut_append_cons hquestion q.toList
    rw [parsePath, takeWhile_noFragment hplain]
    simp only [hcut, String.ofList_toList]
  pathOnly path pq hquestion hfragment h := by
    obtain rfl := Option.some.inj h
    rw [parsePath, takeWhile_noFragment hfragment]
    simp only [cut_eq_none hquestion]
  parts uri uri' h := (Option.some.inj h).symm

/-- A form request. -/
def formPost (pathAndQuery : PathAndQuery) (body : List UInt8) : Request where
  method := .post
  uri := ⟨none, none, some pathAndQuery⟩
  headers := [("content-type", ascii "application/x-www-form-urlencoded")]
  body := Body.of body

/-- A name with white space around it. -/
def johnForm : Codecs Nat := oneForm (ascii "name=+john+") [("name", " john ")]

/-- The name is in the query and in the form. -/
theorem handle_again_john : ∃ next,
    handle johnForm (formPost ⟨"/echo", some "name=+john+"⟩ (ascii "name=+john+")) =
        .forwarded next ∧
      next.uri.query = some "name=john" ∧ next.body.bytes = ascii "name=john" ∧
      handle johnForm next = .forwarded next := by
  obtain ⟨next, hnext, hquery, hbytes⟩ : ∃ next,
      handle johnForm (formPost ⟨"/echo", some "name=+john+"⟩ (ascii "name=+john+")) =
          .forwarded next ∧
        next.uri.query = some "name=john" ∧ next.body.bytes = ascii "name=john" :=
    ⟨_, rfl, by decide, by decide⟩
  refine ⟨next, hnext, hquery, hbytes, ?_⟩
  refine handle_again (oneForm_roundTrips _ _) ⟨by decide, by decide⟩ hnext fun _ => ?_
  rw [hbytes]
  decide

/-- A form whose value is `m` exclamation marks. -/
def marks (m : Nat) : List (String × String) := [("a", String.ofList (List.replicate m '!'))]

/-- The marks as they are sent. -/
def sentMarks (m : Nat) : List UInt8 := ascii (String.ofList ('a' :: '=' :: List.replicate m '!'))

theorem trimFormPairs_marks (m : Nat) : trimFormPairs (marks m) = marks m := by
  have hplain : ∀ c ∈ List.replicate m '!', isWhitespace c = false := by
    intro c hc
    rw [List.eq_of_mem_replicate hc]
    decide
  have htext : trimText (String.ofList (List.replicate m '!')) =
      String.ofList (List.replicate m '!') := by
    rw [trimText, String.toList_ofList, trim_eq_self hplain]
  simp [marks, trimFormPairs, trimPair, htext]

theorem length_sentMarks (m : Nat) : (sentMarks m).length = m + 2 := by
  simp [sentMarks, ascii]

theorem length_flatMap_replicate {α β : Type} (f : α → List β) (a : α) (m : Nat) :
    ((List.replicate m a).flatMap f).length = m * (f a).length := by
  induction m with
  | zero => rw [List.replicate_zero, List.flatMap_nil, List.length_nil, Nat.zero_mul]
  | succ m ih =>
    rw [List.replicate_succ, List.flatMap_cons, List.length_append, ih, Nat.succ_mul,
      Nat.add_comm]

/-- **A mark is three bytes when it is escaped.** -/
theorem length_escapedMarks (m : Nat) :
    (utf8 (twoBodies.formToString (marks m))).length = 3 * m + 2 := by
  have hmark : ((formChars '!').flatMap String.utf8EncodeChar).length = 3 := by decide
  have hkey : ("a".toList.flatMap fun c => (formChars c).flatMap String.utf8EncodeChar).length = 1 := by
    decide
  have heq : (ascii "=").length = 1 := by decide
  rw [twoBodies_lawful.form, encodeForm, marks, List.map_singleton, join,
    List.intercalate_singleton]
  rw [List.length_append, List.length_append, hkey, heq, String.toList_ofList,
    length_flatMap_replicate, hmark]
  omega

/-- A body of marks that fits, and does not when it is escaped, is answered the second time. -/
theorem handle_marks {m : Nat} (hfits : m + 2 ≤ maxBody) (hlong : maxBody < 3 * m + 2) :
    ∃ next, handle (oneForm (sentMarks m) (marks m)) (formPost ⟨"/echo", none⟩ (sentMarks m)) =
        .forwarded next ∧
      handle (oneForm (sentMarks m) (marks m)) next =
        .answered 413 "request body too large" := by
  have hwhole : toBytes (Body.of (sentMarks m)) maxBody = some (sentMarks m) := by
    refine toBytes_eq_some_iff.mpr ⟨rfl, ?_, rfl⟩
    rw [Body.of, length_sentMarks]
    exact hfits
  have hbytes : trimmedBytes (oneForm (sentMarks m) (marks m))
      (some "application/x-www-form-urlencoded") (sentMarks m) =
        utf8 (twoBodies.formToString (marks m)) := by
    have hdecode : (oneForm (sentMarks m) (marks m)).formFromBytes (sentMarks m) =
        some (marks m) := by
      simp [oneForm, trimFormPairs_marks]
    have hne : sentMarks m ≠ [] := by simp [sentMarks, ascii]
    have hjson : startsWith "application/x-www-form-urlencoded" "application/json" = false := by
      decide
    have hform : startsWith "application/x-www-form-urlencoded"
        "application/x-www-form-urlencoded" = true := by decide
    simp only [trimmedBytes, decode, if_neg hne, hjson, hform, hdecode, if_true, encodeTrimmed,
      trimFormPairs_marks, Bool.false_eq_true, if_false]
    rfl
  have hlarge : toBytes (Body.of (utf8 (twoBodies.formToString (marks m)))) maxBody = none := by
    apply toBytes_of_long
    rw [Body.of, length_escapedMarks]
    exact hlong
  have hpost (bytes : List UInt8) :
      ¬ (formPost ⟨"/echo", none⟩ bytes).method.hasBody = false := fun h => by cases h
  have hbody (bytes : List UInt8) : (formPost ⟨"/echo", none⟩ bytes).body = Body.of bytes := rfl
  refine ⟨formPost ⟨"/echo", none⟩ (utf8 (twoBodies.formToString (marks m))), ?_, ?_⟩
  · rw [handle_eq, if_neg (hpost _), hbody, hwhole, ← hbytes]
    rfl
  · rw [handle_eq, if_neg (hpost _), hbody, hlarge]

theorem not_handle_again : ¬ ∀ C : Codecs Nat, C.RoundTrips → ∀ request next : Request,
    request.uri.PathEnds → handle C request = .forwarded next →
      ∃ again, handle C next = .forwarded again ∧ again.uri = next.uri ∧
        again.body.bytes = next.body.bytes := by
  intro hall
  obtain ⟨next, hfirst, hsecond⟩ := handle_marks (m := 1000000)
    (by unfold maxBody; omega) (by unfold maxBody; omega)
  obtain ⟨again, hagain, -, -⟩ := hall _ (oneForm_roundTrips _ _) _ next
    ⟨by decide, by decide⟩ hfirst
  rw [hsecond] at hagain
  cases hagain

end Kolas.Http
