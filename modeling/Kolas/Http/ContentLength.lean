import Kolas.Http.TrimStrings

/-!
# The length of a trimmed body

`TrimStrings` encodes a body again and leaves the headers as they are.  `Lawful` is
what is used of the encoders: JSON is written without white space, and a text,
there and in a form, character by character.

* `length_jsonToVec`, `length_formToString`: trimming shortens the encoding by what
  the white space around the texts takes in it, `removed` and `removedPairs`.
* `consistent_iff`: a `Content-Length` stays right when this is all that the encoding
  of the untrimmed value has more than the body.
-/

namespace Kolas.Http

open Kolas.Lib Kolas.Schedule

variable {ν : Type}

/-- A form, for given texts of the characters. -/
def encodeForm (escape : Char → List UInt8) (pairs : List (String × String)) : List UInt8 :=
  join 38 (pairs.map fun pair =>
    pair.1.toList.flatMap escape ++ ascii "=" ++ pair.2.toList.flatMap escape)

/-- What is used of the encoders. -/
structure Codecs.Lawful (C : Codecs ν) (jsonEscape formEscape : Char → List UInt8)
    (number : ν → List UInt8) : Prop where
  json : ∀ v, C.jsonToVec v = v.encode jsonEscape number
  form : ∀ pairs, utf8 (C.formToString pairs) = encodeForm formEscape pairs

/-! ### What trimming removes -/

variable (escape : Char → List UInt8)

/-- The length of the white space around a text. -/
def removedText (s : String) : Nat := ((around isWhitespace s.toList).flatMap escape).length

mutual

/-- The length of the white space that is trimmed. -/
def removed (parentKey : Option String) : Json ν → Nat
  | .string s => if isSkipped parentKey then 0 else removedText escape s
  | .array items => removedItems parentKey items
  | .object map => removedEntries map
  | _ => 0

def removedItems (parentKey : Option String) : List (Json ν) → Nat
  | [] => 0
  | v :: items => removed parentKey v + removedItems parentKey items

def removedEntries : List (String × Json ν) → Nat
  | [] => 0
  | (k, v) :: map => removed (some k) v + removedEntries map

end

def removedPair (pair : String × String) : Nat :=
  if skipFields.contains pair.1 then 0 else removedText escape pair.2

def removedPairs (pairs : List (String × String)) : Nat := (pairs.map (removedPair escape)).sum

theorem length_trimText (s : String) :
    ((trimText s).toList.flatMap escape).length + removedText escape s =
      (s.toList.flatMap escape).length := by
  unfold trimText removedText
  rw [String.toList_ofList]
  exact length_flatMap_trim escape s.toList

variable (number : ν → List UInt8)

mutual

theorem length_trimValue (parentKey : Option String) : ∀ v : Json ν,
    ((trimValue parentKey v).encode escape number).length + removed escape parentKey v =
      (v.encode escape number).length
  | .null => rfl
  | .bool b => rfl
  | .number n => rfl
  | .string s => by
    have hlength := length_trimText escape s
    by_cases hskip : isSkipped parentKey = true
    · simp only [trimValue, removed, hskip, if_true, Nat.add_zero]
    · simp only [trimValue, removed, if_neg hskip, Json.encode, Json.quoted, List.length_append]
      omega
  | .array items => by
    obtain ⟨hsum, hcount⟩ := length_trimItems parentKey items
    simp only [trimValue, removed, Json.encode, List.length_append, length_join]
    omega
  | .object map => by
    obtain ⟨hsum, hcount⟩ := length_trimEntries map
    simp only [trimValue, removed, Json.encode, List.length_append, length_join]
    omega

theorem length_trimItems (parentKey : Option String) : ∀ items : List (Json ν),
    ((Json.encodeItems escape number (trimItems parentKey items)).map List.length).sum +
        removedItems escape parentKey items =
      ((Json.encodeItems escape number items).map List.length).sum ∧
    (Json.encodeItems escape number (trimItems parentKey items)).length =
      (Json.encodeItems escape number items).length
  | [] => ⟨rfl, rfl⟩
  | v :: items => by
    have hv := length_trimValue parentKey v
    obtain ⟨hsum, hcount⟩ := length_trimItems parentKey items
    simp only [trimItems, removedItems, Json.encodeItems, List.map_cons, List.sum_cons,
      List.length_cons]
    omega

theorem length_trimEntries : ∀ map : List (String × Json ν),
    ((Json.encodeEntries escape number (trimEntries map)).map List.length).sum +
        removedEntries escape map =
      ((Json.encodeEntries escape number map).map List.length).sum ∧
    (Json.encodeEntries escape number (trimEntries map)).length =
      (Json.encodeEntries escape number map).length
  | [] => ⟨rfl, rfl⟩
  | (k, v) :: map => by
    have hv := length_trimValue (some k) v
    obtain ⟨hsum, hcount⟩ := length_trimEntries map
    simp only [trimEntries, removedEntries, Json.encodeEntries, List.map_cons, List.sum_cons,
      List.length_cons, List.length_append]
    omega

end

variable {escape number} {C : Codecs ν} {formEscape : Char → List UInt8}

/-- **Trimming a value shortens its encoding** by what is removed. -/
theorem length_jsonToVec (hC : C.Lawful escape formEscape number) (v : Json ν) :
    (C.jsonToVec (trimValue none v)).length + removed escape none v = (C.jsonToVec v).length := by
  rw [hC.json, hC.json]
  exact length_trimValue escape number none v

theorem length_formToString (hC : C.Lawful escape formEscape number)
    (pairs : List (String × String)) :
    (utf8 (C.formToString (trimFormPairs pairs))).length + removedPairs formEscape pairs =
      (utf8 (C.formToString pairs)).length := by
  rw [hC.form, hC.form]
  unfold encodeForm trimFormPairs removedPairs
  rw [length_join, length_join, List.length_map, List.length_map, List.length_map]
  have hsum : ∀ f : String × String → List UInt8,
      (∀ pair, (f (trimPair pair)).length + removedPair formEscape pair = (f pair).length) →
      (((pairs.map trimPair).map f).map List.length).sum +
          (pairs.map (removedPair formEscape)).sum =
        ((pairs.map f).map List.length).sum := by
    intro f hf
    induction pairs with
    | nil => rfl
    | cons pair pairs ih =>
      have hpair := hf pair
      simp only [List.map_cons, List.sum_cons]
      omega
  rw [Nat.add_right_comm, hsum]
  intro pair
  have hlength := length_trimText formEscape pair.2
  unfold trimPair removedPair
  by_cases hskip : skipFields.contains pair.1 = true
  · simp only [hskip, if_true, Nat.add_zero]
  · simp only [if_neg hskip, List.length_append]
    omega

/-! ### The forwarded request -/

/-- What the compact encoding of the decoded value has more than the body is what
the white space to be trimmed takes in it. -/
def KeepsLength (C : Codecs ν) (jsonEscape formEscape : Char → List UInt8) (request : Request) :
    Prop :=
  let bytes := request.body.bytes
  match decode C request.contentType bytes with
  | .json v => bytes.length + removed jsonEscape none v = (C.jsonToVec v).length
  | .form pairs =>
    bytes.length + removedPairs formEscape pairs = (utf8 (C.formToString pairs)).length
  | .plain => True

/-- The new body is as long as the old one. -/
theorem keepsLength_iff (hC : C.Lawful escape formEscape number) (request : Request) :
    KeepsLength C escape formEscape request ↔
      (encodeTrimmed C request.body.bytes
        (decode C request.contentType request.body.bytes)).length = request.body.bytes.length := by
  unfold KeepsLength
  dsimp only
  cases decode C request.contentType request.body.bytes with
  | json v =>
    have hlength := length_jsonToVec hC v
    show _ ↔ (C.jsonToVec (trimValue none v)).length = _
    omega
  | form pairs =>
    have hlength := length_formToString hC pairs
    show _ ↔ (utf8 (C.formToString (trimFormPairs pairs))).length = _
    omega
  | plain => exact iff_of_true trivial rfl

/-- The headers that were right are right for a body of the same length only. -/
theorem Request.Consistent.iff_length {request next : Request} (h : request.Consistent)
    (hheaders : next.headers = request.headers) :
    next.Consistent ↔ (∀ value, ("content-length", value) ∉ request.headers) ∨
      next.body.bytes.length = request.body.bytes.length := by
  unfold Consistent
  rw [hheaders]
  constructor
  · intro hnext
    by_cases hnone : ∀ value, ("content-length", value) ∉ request.headers
    · exact .inl hnone
    · simp only [not_forall, not_not] at hnone
      obtain ⟨value, hvalue⟩ := hnone
      exact .inr (Option.some.inj ((hnext value hvalue).symm.trans (h value hvalue)))
  · rintro (hnone | hlength) value hvalue
    · exact absurd hvalue (hnone value)
    · rw [hlength]
      exact h value hvalue

theorem bytes_of_toBytes {body : Body} {limit : Nat} {bytes : List UInt8}
    (h : toBytes body limit = some bytes) : bytes = body.bytes :=
  (toBytes_eq_some_iff.mp h).2.2.symm

/-- **The forwarded request is consistent** exactly when no `Content-Length` is
given, or the body is not looked at, or it keeps its length. -/
theorem consistent_iff (hC : C.Lawful escape formEscape number) {request : Request}
    (h : request.Consistent) :
    (∀ next, handle C request = .forwarded next → next.Consistent) ↔
      (∀ value, ("content-length", value) ∉ request.headers) ∨
        request.method.hasBody = false ∨ toBytes request.body maxBody = none ∨
        KeepsLength C escape formEscape request := by
  rw [handle_eq, keepsLength_iff hC]
  by_cases hbody : request.method.hasBody = false
  · rw [if_pos hbody]
    refine iff_of_true ?_ (.inr (.inl hbody))
    rintro next hnext
    obtain rfl := Outcome.forwarded.inj hnext
    exact h
  · rw [if_neg hbody]
    cases hbytes : toBytes request.body maxBody with
    | none => exact iff_of_true (fun next hnext => by cases hnext) (.inr (.inr (.inl rfl)))
    | some bytes =>
      obtain rfl := bytes_of_toBytes hbytes
      let next : Request := { request with
        uri := trimmedUri C request.uri
        body := Body.of (encodeTrimmed C request.body.bytes
          (decode C request.contentType request.body.bytes)) }
      have hnext : next.Consistent ↔ (∀ value, ("content-length", value) ∉ request.headers) ∨
          next.body.bytes.length = request.body.bytes.length := h.iff_length rfl
      constructor
      · intro hforwarded
        rcases hnext.mp (hforwarded next rfl) with hnone | hlength
        · exact .inl hnone
        · exact .inr (.inr (.inr hlength))
      · rintro hcases next' hnext'
        obtain rfl := Outcome.forwarded.inj hnext'
        refine hnext.mpr ?_
        rcases hcases with hnone | hmethod | hlarge | hlength
        · exact .inl hnone
        · exact absurd hmethod hbody
        · cases hlarge
        · exact .inr hlength

/-! ### Two requests -/

def hexDigit (a n : Nat) : Char := if n < 10 then Char.ofNat (48 + n) else Char.ofNat (a + n - 10)

/-- `serde_json`'s text of a character in a string. -/
def jsonEscape (c : Char) : List UInt8 :=
  match c.toNat with
  | 8 => ascii "\\b"
  | 9 => ascii "\\t"
  | 10 => ascii "\\n"
  | 12 => ascii "\\f"
  | 13 => ascii "\\r"
  | 34 => ascii "\\\""
  | 92 => ascii "\\\\"
  | n =>
    if n < 32 then
      ascii "\\u00" ++ ascii (String.ofList [hexDigit 97 (n / 16), hexDigit 97 (n % 16)])
    else String.utf8EncodeChar c

/-- A character in a form. -/
def formChars (c : Char) : List Char :=
  if c.isAlphanum || c == '*' || c == '-' || c == '.' || c == '_' then [c]
  else if c == ' ' then ['+']
  else (String.utf8EncodeChar c).flatMap fun b =>
    ['%', hexDigit 65 (b.toNat / 16), hexDigit 65 (b.toNat % 16)]

/-- Encoders as those of `serde_json` and `serde_urlencoded`, for numbers that are
natural, and a decoder that knows two bodies. -/
def twoBodies : Codecs Nat where
  jsonFromSlice bytes :=
    if bytes = ascii "\x7b\"name\":\"  john \"\x7d" then
      some (.object [("name", .string "  john ")])
    else if bytes = ascii "\x7b\"name\":\"john\"\x7d" then some (.object [("name", .string "john")])
    else none
  jsonToVec v := v.encode jsonEscape fun n => ascii (toString n)
  formFromBytes _ := none
  formToString pairs := String.ofList (['&'].intercalate (pairs.map fun pair =>
    pair.1.toList.flatMap formChars ++ ['='] ++ pair.2.toList.flatMap formChars))
  parsePathAndQuery _ := none
  fromParts := some

theorem flatMap_intercalate {α : Type} {f : α → List UInt8} {sep : α} {b : UInt8}
    (hsep : f sep = [b]) (texts : List (List α)) :
    ([sep].intercalate texts).flatMap f = join b (texts.map (List.flatMap f)) := by
  unfold join
  induction texts with
  | nil => rfl
  | cons text texts ih =>
    cases texts with
    | nil => simp
    | cons text' texts =>
      rw [List.intercalate_cons_cons, List.flatMap_append, List.flatMap_append, ih,
        List.flatMap_singleton, hsep]
      simp only [List.map_cons, List.intercalate_cons_cons]

theorem twoBodies_lawful : twoBodies.Lawful jsonEscape
    (fun c => (formChars c).flatMap String.utf8EncodeChar) fun n => ascii (toString n) where
  json _ := rfl
  form pairs := by
    show ((String.ofList _).toList).flatMap String.utf8EncodeChar = encodeForm _ pairs
    have hampersand : String.utf8EncodeChar '&' = [38] := by decide
    rw [String.toList_ofList, flatMap_intercalate hampersand]
    unfold encodeForm
    rw [List.map_map]
    congr 2
    funext pair
    have hequals : ['='].flatMap String.utf8EncodeChar = ascii "=" := by decide
    simp only [Function.comp_apply, List.flatMap_append, List.flatMap_assoc, hequals]

/-- A JSON request with a `Content-Length`. -/
def jsonPost (body length : String) : Request where
  method := .post
  uri := ⟨none, none, some ⟨"/echo-json", none⟩⟩
  headers := [("content-type", ascii "application/json"), ("content-length", ascii length)]
  body := Body.of (ascii body)

theorem jsonPost_consistent {body length : String}
    (h : lengthOf (ascii length) = some (ascii body).length) :
    (jsonPost body length).Consistent := by
  intro value hvalue
  have hlength : value = ascii length := by simpa [jsonPost] using hvalue
  rw [hlength]
  exact h

/-- Nothing to trim and no white space. -/
theorem consistent_trimmed : ∃ next,
    handle twoBodies (jsonPost "\x7b\"name\":\"john\"\x7d" "15") = .forwarded next ∧
      next.Consistent := by
  have hkeeps : KeepsLength twoBodies jsonEscape
      (fun c => (formChars c).flatMap String.utf8EncodeChar)
      (jsonPost "\x7b\"name\":\"john\"\x7d" "15") := (rfl : 15 = 15)
  refine ⟨_, rfl, ?_⟩
  exact (consistent_iff twoBodies_lawful (jsonPost_consistent (by decide))).mpr
    (.inr (.inr (.inr hkeeps))) _ rfl

theorem not_consistent : ¬ ∀ (C : Codecs Nat) (jsonEscape formEscape : Char → List UInt8)
    (number : Nat → List UInt8), C.Lawful jsonEscape formEscape number →
      ∀ request : Request, request.Consistent →
        ∀ next, handle C request = .forwarded next → next.Consistent := by
  intro h
  have hnext : ∃ next,
      handle twoBodies (jsonPost "\x7b\"name\":\"  john \"\x7d" "18") = .forwarded next ∧
        ("content-length", ascii "18") ∈ next.headers ∧ next.body.bytes.length = 15 :=
    ⟨_, rfl, by decide, by decide⟩
  obtain ⟨next, hnext, hheader, hlength⟩ := hnext
  have hconsistent := h twoBodies _ _ _ twoBodies_lawful _ (jsonPost_consistent (by decide)) next hnext
  have hwrong := hconsistent _ hheader
  rw [hlength] at hwrong
  exact absurd hwrong (by decide)

end Kolas.Http
