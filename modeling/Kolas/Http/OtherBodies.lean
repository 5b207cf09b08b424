import Kolas.Http.Idempotent

/-!
# Bodies that are neither JSON nor a form

The media type of a request is the part of its `Content-Type` before a `;`.
`TrimStrings` does not look at it: it compares the beginning of the header, and it
does so after it has read the whole body, up to the limit.

`leftAlone_iff`: a request of another media type is handed on with its body
exactly when the body is not read, or fits and is not taken for JSON or a form, or is
taken for one that is written back as it was.
-/

namespace Kolas.Http

open Kolas.Lib

variable {ν : Type}

/-- The part before `;`, trimmed. -/
def mediaType (value : HeaderValue) : List UInt8 :=
  trim (fun b => b = 32 ∨ b = 9) (value.takeWhile (· ≠ 59))

/-- The media type, if there is one, is not one of the two that are decoded. -/
def Request.Other (request : Request) : Prop :=
  ∀ value, get request.headers "content-type" = some value →
    mediaType value ≠ ascii "application/json" ∧
      mediaType value ≠ ascii "application/x-www-form-urlencoded"

/-- The body reaches `next`. -/
def LeftAlone (C : Codecs ν) (request : Request) : Prop :=
  ∃ next, handle C request = .forwarded next ∧ next.body = request.body

/-- What the decoders read back from what was decoded and trimmed has its texts. -/
structure Codecs.KeepsStrings (C : Codecs ν) : Prop where
  json : ∀ bytes v, C.jsonFromSlice bytes = some v →
    ∀ w, C.jsonFromSlice (C.jsonToVec (trimValue none v)) = some w →
      w.strings [] = (trimValue none v).strings []
  form : ∀ bytes pairs, C.formFromBytes bytes = some pairs →
    ∀ again, C.formFromBytes (utf8 (C.formToString (trimFormPairs pairs))) = some again →
      again = trimFormPairs pairs

theorem Codecs.RoundTrips.keepsStrings {C : Codecs ν} (hC : C.RoundTrips) : C.KeepsStrings where
  json bytes v hv w hw := by rw [Option.some.inj (hw.symm.trans (hC.json bytes v hv))]
  form bytes pairs hpairs again hagain :=
    Option.some.inj (hagain.symm.trans (hC.form bytes pairs hpairs))

/-- The body is not decoded, or it is the encoding of a value with nothing to trim. -/
def WrittenBack (C : Codecs ν) (request : Request) : Prop :=
  let bytes := request.body.bytes
  match decode C request.contentType bytes with
  | .json v => trimValue none v = v ∧ bytes = C.jsonToVec v
  | .form pairs => trimFormPairs pairs = pairs ∧ bytes = utf8 (C.formToString pairs)
  | .plain => True

/-- The body is not read, or it arrives within the limit and is written back. -/
def Spared (C : Codecs ν) (request : Request) : Prop :=
  request.method.hasBody = false ∨
    (request.body.broken = false ∧ request.body.bytes.length ≤ maxBody ∧ WrittenBack C request)

variable {C : Codecs ν}

/-- A value that has been trimmed and read back unchanged had nothing to trim. -/
theorem trimValue_of_encoded (hC : C.KeepsStrings) {bytes : List UInt8} {v : Json ν}
    (hv : C.jsonFromSlice bytes = some v) (h : C.jsonToVec (trimValue none v) = bytes) :
    trimValue none v = v := by
  have hvalue : trimValue none v = v.mapStrings trimNearest [] := trimValue_eq [] v
  have hstrings := hC.json bytes v hv v (by rw [h, hv])
  rw [hvalue, Json.strings_mapStrings] at hstrings
  rw [hvalue, Json.mapStrings_eq_self_iff]
  have hmap : (v.strings []).map (fun e => (e.1, trimNearest e.1 e.2)) = (v.strings []).map id :=
    hstrings.symm.trans (List.map_id _).symm
  intro e he
  exact congrArg Prod.snd (List.map_inj_left.mp hmap e he)

theorem trimFormPairs_of_encoded (hC : C.KeepsStrings) {bytes : List UInt8}
    {pairs : List (String × String)} (hpairs : C.formFromBytes bytes = some pairs)
    (h : utf8 (C.formToString (trimFormPairs pairs)) = bytes) : trimFormPairs pairs = pairs :=
  (hC.form bytes pairs hpairs pairs (by rw [h, hpairs])).symm

/-- **When the bytes come out as they were.** -/
theorem writtenBack_iff (hC : C.KeepsStrings) (request : Request) :
    WrittenBack C request ↔
      trimmedBytes C request.contentType request.body.bytes = request.body.bytes := by
  unfold WrittenBack trimmedBytes
  rcases decode_cases C request.contentType request.body.bytes with ⟨v, hdecode, hv, -⟩ |
    ⟨pairs, hdecode, hpairs, -⟩ | hdecode
  · simp only [hdecode, encodeTrimmed]
    constructor
    · rintro ⟨htrim, hbytes⟩
      rw [htrim, ← hbytes]
    · intro h
      have htrim := trimValue_of_encoded hC hv h
      exact ⟨htrim, by rw [← h, htrim]⟩
  · simp only [hdecode, encodeTrimmed]
    constructor
    · rintro ⟨htrim, hbytes⟩
      rw [htrim, ← hbytes]
    · intro h
      have htrim := trimFormPairs_of_encoded hC hpairs h
      exact ⟨htrim, by rw [← h, htrim]⟩
  · simp only [hdecode, encodeTrimmed]

/-- **Which requests are handed on with their body.** -/
theorem spared_iff (hC : C.KeepsStrings) (request : Request) :
    LeftAlone C request ↔ Spared C request := by
  unfold LeftAlone Spared
  rw [handle_eq, writtenBack_iff hC]
  by_cases hmethod : request.method.hasBody = false
  · rw [if_pos hmethod]
    exact iff_of_true ⟨_, rfl, rfl⟩ (Or.inl hmethod)
  rw [if_neg hmethod, or_iff_right hmethod]
  cases hbytes : toBytes request.body maxBody with
  | none =>
    refine iff_of_false (fun ⟨next, hnext, _⟩ => by cases hnext) ?_
    rintro ⟨hwhole, hfits, -⟩
    rw [toBytes_eq_some_iff.mpr ⟨hwhole, hfits, rfl⟩] at hbytes
    cases hbytes
  | some bytes =>
    obtain ⟨hwhole, hfits, rfl⟩ := toBytes_eq_some_iff.mp hbytes
    constructor
    · rintro ⟨next, hnext, hbody⟩
      obtain rfl := Outcome.forwarded.inj hnext
      exact ⟨hwhole, hfits, congrArg Body.bytes hbody⟩
    · rintro ⟨-, -, hsame⟩
      refine ⟨_, rfl, ?_⟩
      show Body.of (trimmedBytes C request.contentType request.body.bytes) = request.body
      rw [hsame, Body.of, ← hwhole]

/-- **When a request of another media type is left alone.** -/
theorem leftAlone_iff (hC : C.KeepsStrings) (request : Request) :
    (request.Other → LeftAlone C request) ↔ ¬ request.Other ∨ Spared C request := by
  rw [spared_iff hC, imp_iff_not_or]

/-! ### Two texts -/

def textPost (bytes : List UInt8) : Request where
  method := .post
  uri := ⟨none, none, some ⟨"/echo", none⟩⟩
  headers := [("content-type", ascii "text/plain")]
  body := Body.of bytes

theorem other_textPost (bytes : List UInt8) : (textPost bytes).Other := by
  intro value hvalue
  obtain rfl := Option.some.inj hvalue
  exact ⟨by decide, by decide⟩

/-- A text that fits. -/
theorem leftAlone_text : LeftAlone johnForm (textPost (ascii "  keep me  ")) := by
  have hspared : Spared johnForm (textPost (ascii "  keep me  ")) :=
    Or.inr ⟨rfl, by decide, trivial⟩
  exact (leftAlone_iff (oneForm_roundTrips _ _).keepsStrings _).mpr (Or.inr hspared)
    (other_textPost _)

/-- A text that is one byte over the limit. -/
theorem not_leftAlone : ¬ ∀ C : Codecs Nat, C.KeepsStrings → ∀ request : Request,
    request.Other → LeftAlone C request := by
  intro hall
  obtain ⟨next, hnext, -⟩ := hall johnForm (oneForm_roundTrips _ _).keepsStrings
    (textPost (List.replicate (maxBody + 1) 97)) (other_textPost _)
  have hlong : toBytes (textPost (List.replicate (maxBody + 1) 97)).body maxBody = none := by
    apply toBytes_of_long
    rw [textPost, Body.of, List.length_replicate]
    omega
  have hpost : ¬ (textPost (List.replicate (maxBody + 1) 97)).method.hasBody = false :=
    fun h => by cases h
  rw [handle_eq, if_neg hpost, hlong] at hnext
  cases hnext

end Kolas.Http
