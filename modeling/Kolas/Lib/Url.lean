import Kolas.Lib.Digits
import Kolas.Lib.Words

/-!
# URLs

URLs of the form `scheme://[user[:password]@]host[:port]/path`.

* `Url.text` writes one and `Url.parse` reads it; an empty user or password counts
  as none.
* `Url.parse_text`: what is written is read, when the delimiters `:`, `/` and `@`
  are in no part before the path.
-/

namespace Kolas.Lib

structure Url where
  scheme : String
  user : Option String
  password : Option String
  host : String
  port : Option Nat
  path : String
  deriving DecidableEq, Repr

namespace Url

/-- An empty text is none. -/
def credential (cs : List Char) : Option String :=
  if cs = [] then none else some (String.ofList cs)

def parseUserinfo (cs : List Char) : Option String × Option String :=
  match cut ':' cs with
  | some (user, password) => (credential user, credential password)
  | none => (credential cs, none)

def parseHostPort (cs : List Char) : Option (String × Option Nat) :=
  match cut ':' cs with
  | some (host, digits) => (readNumber digits).map fun port => (String.ofList host, some port)
  | none => some (String.ofList cs, none)

def parse (s : String) : Option Url :=
  match cut ':' s.toList with
  | some (scheme, '/' :: '/' :: rest) =>
    match cut '/' rest with
    | some (authority, path) =>
      let (userinfo, hostPort) := (cut '@' authority).getD ([], authority)
      (parseHostPort hostPort).map fun (host, port) =>
        ⟨String.ofList scheme, (parseUserinfo userinfo).1, (parseUserinfo userinfo).2, host, port,
          String.ofList path⟩
    | none => none
  | _ => none

variable (u : Url)

def userinfoText : String :=
  match u.user, u.password with
  | none, none => ""
  | some user, none => user ++ "@"
  | none, some password => ":" ++ password ++ "@"
  | some user, some password => user ++ ":" ++ password ++ "@"

def portText : String :=
  match u.port with
  | some port => ":" ++ toString port
  | none => ""

def text : String :=
  u.scheme ++ "://" ++ u.userinfoText ++ u.host ++ u.portText ++ "/" ++ u.path

/-- A text without delimiters. -/
def Undelimited (s : String) : Prop := ':' ∉ s.toList ∧ '/' ∉ s.toList ∧ '@' ∉ s.toList

structure WellFormed : Prop where
  scheme : Undelimited u.scheme
  user : ∀ user ∈ u.user, user ≠ "" ∧ Undelimited user
  password : ∀ password ∈ u.password, password ≠ "" ∧ Undelimited password
  host : Undelimited u.host

variable {u}

theorem credential_toList {s : String} (h : s ≠ "") : credential s.toList = some s := by
  have hne : s.toList ≠ [] := fun hnil => h (String.toList_eq_nil_iff.mp hnil)
  rw [credential, if_neg hne, String.ofList_toList]

/-- The host and the port are read back. -/
theorem parseHostPort_text (h : u.WellFormed) :
    parseHostPort (u.host ++ u.portText).toList = some (u.host, u.port) := by
  unfold parseHostPort portText
  cases hport : u.port with
  | none =>
    simp only [String.append_empty, cut_eq_none h.host.1, String.ofList_toList]
  | some port =>
    have htext : (u.host ++ (":" ++ toString port)).toList =
        u.host.toList ++ ':' :: (toString port).toList := by
      rw [String.toList_append, String.toList_append]
      rfl
    simp only [htext, cut_append_cons h.host.1, readNumber_toString, Option.map_some,
      String.ofList_toList]

theorem not_mem_hostPort (h : u.WellFormed) {c : Char} (hc : c = '/' ∨ c = '@') :
    c ∉ (u.host ++ u.portText).toList := by
  have hhost : c ∉ u.host.toList := by
    rcases hc with rfl | rfl
    · exact h.host.2.1
    · exact h.host.2.2
  have hport : c ∉ u.portText.toList := by
    unfold portText
    cases u.port with
    | none => simp
    | some port =>
      rw [String.toList_append, List.mem_append]
      intro hmem
      rcases hmem with hcolon | hdigit
      · rcases hc with rfl | rfl
        · simp at hcolon
        · simp at hcolon
      · rcases hc with rfl | rfl
        · exact not_mem_toString rfl hdigit
        · exact not_mem_toString rfl hdigit
  rw [String.toList_append, List.mem_append]
  exact fun hmem => hmem.elim hhost hport

theorem cut_userinfo (userinfo : List Char) (hat : '@' ∉ userinfo)
    (htext : u.userinfoText.toList = userinfo ++ ['@']) :
    cut '@' (u.userinfoText ++ (u.host ++ u.portText)).toList =
      some (userinfo, (u.host ++ u.portText).toList) := by
  rw [String.toList_append, htext, List.append_assoc]
  exact cut_append_cons hat _

/-- The user and the password are read back, and the host and the port are what is
left of the authority. -/
theorem cut_authority (h : u.WellFormed) :
    ∃ userinfo, (cut '@' (u.userinfoText ++ (u.host ++ u.portText)).toList).getD
        ([], (u.userinfoText ++ (u.host ++ u.portText)).toList) =
        (userinfo, (u.host ++ u.portText).toList) ∧
      parseUserinfo userinfo = (u.user, u.password) := by
  cases huser : u.user with
  | none =>
    cases hpassword : u.password with
    | none =>
      have htext : u.userinfoText = "" := by simp [userinfoText, huser, hpassword]
      refine ⟨[], ?_, rfl⟩
      rw [htext, String.empty_append, cut_eq_none (not_mem_hostPort h (.inr rfl))]
      rfl
    | some password =>
      obtain ⟨hne, hdel⟩ := h.password password hpassword
      refine ⟨':' :: password.toList, ?_, ?_⟩
      · rw [cut_userinfo (':' :: password.toList)]
        · rfl
        · simp [hdel.2.2]
        · simp [userinfoText, huser, hpassword]
      · have hcut := cut_append_cons (List.not_mem_nil (a := ':')) password.toList
        rw [List.nil_append] at hcut
        unfold parseUserinfo
        simp only [hcut, credential_toList hne]
        rfl
  | some user =>
    obtain ⟨huserNe, huserDel⟩ := h.user user huser
    cases hpassword : u.password with
    | none =>
      refine ⟨user.toList, ?_, ?_⟩
      · rw [cut_userinfo user.toList huserDel.2.2]
        · rfl
        · simp [userinfoText, huser, hpassword]
      · unfold parseUserinfo
        simp only [cut_eq_none huserDel.1, credential_toList huserNe]
    | some password =>
      obtain ⟨hne, hdel⟩ := h.password password hpassword
      refine ⟨user.toList ++ ':' :: password.toList, ?_, ?_⟩
      · rw [cut_userinfo (user.toList ++ ':' :: password.toList)]
        · rfl
        · simp [huserDel.2.2, hdel.2.2]
        · simp [userinfoText, huser, hpassword]
      · unfold parseUserinfo
        simp only [cut_append_cons huserDel.1, credential_toList huserNe, credential_toList hne]

theorem not_mem_authority (h : u.WellFormed) :
    '/' ∉ (u.userinfoText ++ (u.host ++ u.portText)).toList := by
  have huser : '/' ∉ u.userinfoText.toList := by
    unfold userinfoText
    split
    · simp
    · rename_i user huser hpassword
      simp [(h.user user huser).2.2.1]
    · rename_i password huser hpassword
      simp [(h.password password hpassword).2.2.1]
    · rename_i user password huser hpassword
      simp [(h.user user huser).2.2.1, (h.password password hpassword).2.2.1]
  rw [String.toList_append, List.mem_append]
  exact fun hmem => hmem.elim huser (not_mem_hostPort h (.inl rfl))

/-- **What is written is read.** -/
theorem parse_text (h : u.WellFormed) : parse u.text = some u := by
  obtain ⟨userinfo, hauthority, huserinfo⟩ := cut_authority h
  have htext : u.text.toList = u.scheme.toList ++ ':' :: '/' :: '/' ::
      ((u.userinfoText ++ (u.host ++ u.portText)).toList ++ '/' :: u.path.toList) := by
    simp [text]
  unfold parse
  simp only [htext, cut_append_cons h.scheme.1, cut_append_cons (not_mem_authority h), hauthority,
    huserinfo, parseHostPort_text h, Option.map_some, String.ofList_toList]

end Url

end Kolas.Lib
