import Posta.Js.Strings

/-!
# The authority of a URL

How the URL Standard reads what follows `scheme://`, as far as it decides whether there is a URL
and whether it has a user name or a password: the authority ends at the first delimiter, its user
information at the last `@`, the user name at the first `:` and the host at the first `:` outside
brackets. What a host may be is left open (`HostParser`), up to what is needed here.

**Theorem (`credentials_of_at`).** An authority with an `@` has the credentials in front of it, or
the URL is none.

**Theorem (`credentials_of_no_at`).** One without an `@` whose host ends at a `:` is read exactly
when the host is one and a port follows.
-/

namespace Js.Url

/-! ## Schemes and delimiters -/

def specialSchemes : List JsString :=
  [lit "ftp", lit "file", lit "http", lit "https", lit "ws", lit "wss"]

def isSpecial (scheme : JsString) : Bool := specialSchemes.contains (scheme.map asciiLower)

def isFile (scheme : JsString) : Bool := scheme.map asciiLower == lit "file"

def isSlash (c : CodeUnit) : Bool := c == unit '/' || c == unit '\\'

/-- What ends an authority. -/
def isDelimiter (special : Bool) (c : CodeUnit) : Bool :=
  c == unit '/' || c == unit '?' || c == unit '#' || (special && c == unit '\\')

/-- The authority of what follows the two slashes. -/
def authority (special : Bool) (rest : JsString) : JsString :=
  (if special then rest.dropWhile isSlash else rest).takeWhile fun c => !isDelimiter special c

/-! ## Hosts and ports -/

/-- U+0000, white space and the units that the syntax of a URL uses. -/
def isForbiddenHostUnit (c : CodeUnit) : Bool :=
  c == 0 || c == 9 || c == 10 || c == 13 || (lit " #/:<>?@[\\]^|").contains c

/-- Which hosts there are, for the special schemes and for the others. -/
structure HostParser where
  accepts : Bool → JsString → Bool
  plain_accepted : ∀ text, (∀ c ∈ text, isForbiddenHostUnit c = false) → accepts false text = true
  colon_rejected : ∀ special text, unit ':' ∈ text → text.head? ≠ some (unit '[') →
    accepts special text = false

/-- The host at the start of a text, and what follows its `:`. -/
def splitHost : Bool → JsString → JsString × Option JsString
  | _, [] => ([], none)
  | inBrackets, c :: s =>
    if c = unit ':' ∧ inBrackets = false then ([], some s)
    else
      let (host, port) :=
        splitHost (if c = unit '[' then true else if c = unit ']' then false else inBrackets) s
      (c :: host, port)

def isPort (port : JsString) : Bool := port.all isDigit && natValue port ≤ 65535

def isHostAndPort (hosts : HostParser) (special : Bool) (text : JsString) : Bool :=
  match splitHost false text with
  | (host, none) => !(special && host.isEmpty) && hosts.accepts special host
  | (host, some port) => !host.isEmpty && hosts.accepts special host && isPort port

/-! ## Credentials -/

/-- The user name and the password of an authority, as they are written; `none` where there is no
URL. -/
def authorityCredentials (hosts : HostParser) (special : Bool) (text : JsString) :
    Option (JsString × JsString) :=
  match splitAtLast (unit '@') text with
  | none => if isHostAndPort hosts special text then some ([], []) else none
  | some (userinfo, host) =>
    if !host.isEmpty && isHostAndPort hosts special host then
      some (userinfo.takeWhile (· ≠ unit ':'), (userinfo.dropWhile (· ≠ unit ':')).tail)
    else none

def isDriveLetter : JsString → Bool
  | [letter, colon] => isLetter letter && (colon == unit ':' || colon == unit '|')
  | _ => false

/-- The host of a `file:` URL has neither credentials nor a port. -/
def isFileHost (hosts : HostParser) (text : JsString) : Bool :=
  isDriveLetter text || text.isEmpty || hosts.accepts true text

/-- The credentials in what follows `scheme://`. -/
def credentials (hosts : HostParser) (scheme rest : JsString) : Option (JsString × JsString) :=
  if isFile scheme then
    if isFileHost hosts (rest.takeWhile fun c => !isDelimiter true c) then some ([], []) else none
  else authorityCredentials hosts (isSpecial scheme) (authority (isSpecial scheme) rest)

/-! ## A user name, a colon and more -/

/-- A unit of a plain user name: a letter, a digit or one of `-._~`. -/
def isPlainUnit (c : CodeUnit) : Bool :=
  isLetter c || isDigit c || c == unit '-' || c == unit '.' || c == unit '_' || c == unit '~'

theorem not_plain_of_forbidden {c : CodeUnit} (h : isForbiddenHostUnit c = true) :
    isPlainUnit c = false := by
  have hlist : ((0 :: 9 :: 10 :: 13 :: lit " #/:<>?@[\\]^|").all fun c => !isPlainUnit c) = true := by
    decide
  have hmem : c ∈ 0 :: 9 :: 10 :: 13 :: lit " #/:<>?@[\\]^|" := by
    simpa [isForbiddenHostUnit, or_assoc] using h
  simpa using List.all_eq_true.mp hlist c hmem

theorem not_forbidden_of_plain {c : CodeUnit} (h : isPlainUnit c = true) :
    isForbiddenHostUnit c = false := by
  by_contra hc
  rw [not_plain_of_forbidden (Bool.eq_true_of_not_eq_false hc)] at h
  cases h

theorem ne_of_plain {c d : CodeUnit} (h : isPlainUnit c = true) (hd : isForbiddenHostUnit d = true) :
    c ≠ d := by
  rintro rfl
  rw [not_forbidden_of_plain h] at hd
  cases hd

theorem not_delimiter_of_plain {c : CodeUnit} (h : isPlainUnit c = true) (special : Bool) :
    isDelimiter special c = false := by
  have hslash : c ≠ unit '/' := ne_of_plain h (by decide)
  have hquery : c ≠ unit '?' := ne_of_plain h (by decide)
  have hhash : c ≠ unit '#' := ne_of_plain h (by decide)
  have hback : c ≠ unit '\\' := ne_of_plain h (by decide)
  simp [isDelimiter, hslash, hquery, hhash, hback]

section UserName

variable {user : JsString} (hplain : ∀ c ∈ user, isPlainUnit c = true) (hne : user ≠ [])

include hplain

theorem plain_ne {d : CodeUnit} (hd : isForbiddenHostUnit d = true) : d ∉ user := fun hmem =>
  ne_of_plain (hplain d hmem) hd rfl

theorem takeWhile_user (special : Bool) (s : JsString) :
    (user ++ unit ':' :: s).takeWhile (fun c => !isDelimiter special c) =
      user ++ unit ':' :: s.takeWhile fun c => !isDelimiter special c := by
  have hcolon : isDelimiter special (unit ':') = false := by cases special <;> decide
  rw [List.takeWhile_append_of_pos fun c hc => by
      rw [not_delimiter_of_plain (hplain c hc)]; rfl,
    List.takeWhile_cons_of_pos (by rw [hcolon]; rfl)]

theorem splitHost_user (s : JsString) : splitHost false (user ++ unit ':' :: s) = (user, some s) := by
  induction user with
  | nil => rfl
  | cons c user ih =>
    have hc := hplain c List.mem_cons_self
    have hcolon : c ≠ unit ':' := ne_of_plain hc (by decide)
    have hopen : c ≠ unit '[' := ne_of_plain hc (by decide)
    have hclose : c ≠ unit ']' := ne_of_plain hc (by decide)
    rw [List.cons_append, splitHost, if_neg fun h => hcolon h.1, if_neg hopen, if_neg hclose,
      ih fun d hd => hplain d (List.mem_cons_of_mem _ hd)]

/-- **Theorem (`credentials_of_at`).** -/
theorem credentials_of_at (hosts : HostParser) (special : Bool) {s : JsString}
    (h : unit '@' ∈ s) :
    authorityCredentials hosts special (user ++ unit ':' :: s) = none ∨
      ∃ password, authorityCredentials hosts special (user ++ unit ':' :: s) =
        some (user, password) := by
  cases hs : splitAtLast (unit '@') s with
  | none => exact absurd h (splitAtLast_eq_none_iff.mp hs)
  | some parts =>
    obtain ⟨front, host⟩ := parts
    obtain ⟨rfl, hhost⟩ := of_splitAtLast hs
    have huser : (user ++ unit ':' :: front).takeWhile (· ≠ unit ':') = user := by
      rw [List.takeWhile_append_of_pos fun c hc => by
          simpa using ne_of_plain (hplain c hc) (d := unit ':') (by decide),
        List.takeWhile_cons_of_neg (by simp), List.append_nil]
    have hsplit : splitAtLast (unit '@') (user ++ unit ':' :: (front ++ unit '@' :: host)) =
        some (user ++ unit ':' :: front, host) := by
      rw [← splitAtLast_append (user ++ unit ':' :: front) hhost]
      simp
    rw [authorityCredentials, hsplit]
    by_cases hread : (!host.isEmpty && isHostAndPort hosts special host) = true
    · simp only [if_pos hread, huser]
      exact .inr ⟨_, rfl⟩
    · exact .inl (if_neg hread)

include hne

theorem authority_user (special : Bool) (s : JsString) :
    authority special (user ++ unit ':' :: s) =
      user ++ unit ':' :: s.takeWhile fun c => !isDelimiter special c := by
  obtain ⟨c, user', rfl⟩ := List.exists_cons_of_ne_nil hne
  have hslash : isSlash c = false := by
    have hc := hplain c List.mem_cons_self
    simp [isSlash, ne_of_plain hc (d := unit '/') (by decide),
      ne_of_plain hc (d := unit '\\') (by decide)]
  have hdrop : (c :: user' ++ unit ':' :: s).dropWhile isSlash = c :: user' ++ unit ':' :: s := by
    rw [List.cons_append, List.dropWhile_cons_of_neg (by simp [hslash])]
  rw [authority, hdrop, ite_self, takeWhile_user hplain]

/-- **Theorem (`credentials_of_no_at`).** -/
theorem credentials_of_no_at (hosts : HostParser) (special : Bool) {s : JsString}
    (h : unit '@' ∉ s) :
    authorityCredentials hosts special (user ++ unit ':' :: s) =
      if hosts.accepts special user && isPort s then some ([], []) else none := by
  have hnone : unit '@' ∉ user ++ unit ':' :: s := by
    rw [List.mem_append, List.mem_cons]
    rintro (hmem | hmem | hmem)
    · exact plain_ne hplain (by decide) hmem
    · exact absurd hmem (by decide)
    · exact h hmem
  rw [authorityCredentials, splitAtLast_eq_none_iff.mpr hnone, isHostAndPort,
    splitHost_user hplain]
  simp [hne]

theorem isFileHost_user (hosts : HostParser) (s : JsString) :
    isFileHost hosts (user ++ unit ':' :: s) = isDriveLetter (user ++ unit ':' :: s) := by
  have hhead : (user ++ unit ':' :: s).head? ≠ some (unit '[') := by
    obtain ⟨c, user', rfl⟩ := List.exists_cons_of_ne_nil hne
    intro hc
    exact ne_of_plain (hplain c List.mem_cons_self) (d := unit '[') (by decide) (Option.some.inj hc)
  rw [isFileHost, hosts.colon_rejected true _ (by simp) hhead]
  simp [hne]

end UserName

/-! ## A user name and a password -/

/-- `user:password@…` reads as a host, a port and a path: the password has a delimiter, what comes
before it is a port, and the user name is a host. After `file://` the two are a drive letter. -/
def readsAsHostAndPort (hosts : HostParser) (scheme user password : JsString) : Bool :=
  let front := password.takeWhile fun c => !isDelimiter (isSpecial scheme) c
  password.any (isDelimiter (isSpecial scheme)) &&
    if isFile scheme then isDriveLetter (user ++ unit ':' :: front)
    else hosts.accepts (isSpecial scheme) user && isPort front

theorem not_at_of_isPort {s : JsString} (h : isPort s = true) : unit '@' ∉ s := by
  intro hmem
  have hdigit : isDigit (unit '@') = true :=
    List.all_eq_true.mp (Bool.and_eq_true_iff.mp h).1 _ hmem
  exact absurd hdigit (by decide)

theorem takeWhile_of_any {special : Bool} {password : JsString}
    (h : password.any (isDelimiter special) = true) (s : JsString) :
    (password ++ s).takeWhile (fun c => !isDelimiter special c) =
      password.takeWhile fun c => !isDelimiter special c := by
  induction password with
  | nil => cases h
  | cons c password ih =>
    by_cases hc : isDelimiter special c = true
    · rw [List.cons_append, List.takeWhile_cons_of_neg (by simp [hc]),
        List.takeWhile_cons_of_neg (by simp [hc])]
    · rw [List.any_cons, Bool.or_eq_true, or_iff_right hc] at h
      rw [List.cons_append, List.takeWhile_cons_of_pos (by simpa using hc),
        List.takeWhile_cons_of_pos (by simpa using hc), ih h]

theorem at_mem_takeWhile_of_not_any {special : Bool} {password : JsString}
    (h : password.any (isDelimiter special) = false) (s : JsString) :
    unit '@' ∈ (password ++ unit '@' :: s).takeWhile fun c => !isDelimiter special c := by
  have hat : isDelimiter special (unit '@') = false := by cases special <;> decide
  rw [List.takeWhile_append_of_pos fun c hc => by
      have hd : isDelimiter special c = false := by
        simpa using List.any_eq_false.mp h c hc
      rw [hd]
      rfl,
    List.takeWhile_cons_of_pos (by rw [hat]; rfl)]
  exact List.mem_append_right _ List.mem_cons_self

theorem isSpecial_of_isFile {scheme : JsString} (h : isFile scheme = true) :
    isSpecial scheme = true := by
  rw [isSpecial, eq_of_beq h]
  decide

theorem isDriveLetter_user {user : JsString} (hne : user ≠ []) {s : JsString} (hs : s ≠ []) :
    isDriveLetter (user ++ unit ':' :: s) = false := by
  obtain ⟨c, user', rfl⟩ := List.exists_cons_of_ne_nil hne
  obtain ⟨d, s', rfl⟩ := List.exists_cons_of_ne_nil hs
  cases user' with
  | nil => rfl
  | cons e user'' => cases user'' <;> rfl

/-- Whether the credentials of `user:password@…` are seen. -/
theorem credentials_user (hosts : HostParser) {user : JsString}
    (hplain : ∀ c ∈ user, isPlainUnit c = true) (hne : user ≠ []) (scheme password host : JsString) :
    (readsAsHostAndPort hosts scheme user password = true →
      credentials hosts scheme (user ++ unit ':' :: (password ++ unit '@' :: host)) =
        some ([], [])) ∧
    (readsAsHostAndPort hosts scheme user password = false →
      credentials hosts scheme (user ++ unit ':' :: (password ++ unit '@' :: host)) = none ∨
        ∃ written, credentials hosts scheme (user ++ unit ':' :: (password ++ unit '@' :: host)) =
          some (user, written)) := by
  simp only [readsAsHostAndPort]
  by_cases hany : password.any (isDelimiter (isSpecial scheme)) = true
  · by_cases hfile : isFile scheme = true
    · have hspecial := isSpecial_of_isFile hfile
      rw [hspecial] at hany ⊢
      simp only [hany, hfile, if_true, Bool.true_and]
      rw [credentials, if_pos hfile, takeWhile_user hplain, takeWhile_of_any hany,
        isFileHost_user hplain hne]
      exact ⟨fun h => if_pos h, fun h => .inl (if_neg (by simp [h]))⟩
    · simp only [hany, if_neg hfile, Bool.true_and]
      rw [credentials, if_neg hfile, authority_user hplain hne, takeWhile_of_any hany]
      by_cases hat : unit '@' ∈ password.takeWhile fun c => !isDelimiter (isSpecial scheme) c
      · refine ⟨fun h => ?_, fun _ => credentials_of_at hplain hosts _ hat⟩
        exact absurd hat (not_at_of_isPort (Bool.and_eq_true_iff.mp h).2)
      · rw [credentials_of_no_at hplain hne hosts _ hat]
        exact ⟨fun h => if_pos h, fun h => .inl (if_neg (by simp [h]))⟩
  · have hnone := Bool.eq_false_of_not_eq_true hany
    simp only [hnone, Bool.false_and]
    refine ⟨fun h => (Bool.false_ne_true h).elim, fun _ => ?_⟩
    have hat := at_mem_takeWhile_of_not_any hnone host
    by_cases hfile : isFile scheme = true
    · rw [isSpecial_of_isFile hfile] at hat
      rw [credentials, if_pos hfile, takeWhile_user hplain, isFileHost_user hplain hne,
        isDriveLetter_user hne (List.ne_nil_of_mem hat)]
      exact .inl rfl
    · rw [credentials, if_neg hfile, authority_user hplain hne]
      exact credentials_of_at hplain hosts _ hat

end Js.Url
