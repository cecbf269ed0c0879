import LocalFlow.Library.Run
import LocalFlow.Library.Separated
import LocalFlow.Storage.Drafts

/-! The administrator sessions of `AuthManager`: login, the session cookie and its CSRF token, and
the requests that are let in. Nothing of them is stored; the key in the file `web-admin-key` signs
all of it. -/
namespace LocalFlow
open Transition Separated

/-- HMAC-SHA256 of a key and a text, in hexadecimal digits. -/
structure Hmac where
  digest : String → String → String
  some_digest : ∀ key text, (digest key text).toList ≠ []
  ascii : ∀ key text, (digest key text).toList.all (fun c => c.toNat < 128) = true

/-- What the readings of `web-admin-key` give in one call, `none` where one raises. The file may be
replaced between them. -/
structure KeyReadings where
  first : Option String
  second : Option String
  third : Option String

inductive SessionFault where
  | unreadable
  | type
  | http (status : Nat) (detail : String)

/-- What a request shows of itself. What it lacks is empty. -/
structure WebRequest where
  method : String
  scheme : String
  host : String
  hostname : String
  origin : String
  authorization : String
  cookie : String
  csrf : String

/-- `hmac.compare_digest` of two strings, which have to be ASCII. -/
def compareDigest (a b : String) : Except SessionFault Bool :=
  if (a.toList ++ b.toList).all (fun c => c.toNat < 128) then .ok (a = b) else .error .type

/-- The text that is signed. -/
def adminText (purpose value : String) : String := "localflow-web-" ++ purpose ++ "\x00" ++ value

section Manager
variable (hmac : Hmac)

/-- `admin_path.read_text().strip()`. -/
def adminKey (reading : Option String) : Except SessionFault String :=
  match reading with
  | some content => .ok (strip content)
  | none => .error .unreadable

/-- `_admin_signature`. -/
def adminSignature (reading : Option String) (purpose value : String) : Except SessionFault String :=
  (adminKey reading).map (fun key => hmac.digest key (adminText purpose value))

/-- `_csrf_token`. -/
def csrfToken (reading : Option String) (token : String) : Except SessionFault String :=
  adminSignature hmac reading "csrf" token

def sessionToken (nonce signature : String) : String := "v1." ++ nonce ++ "." ++ signature

/-- `create_admin_session`, with the nonce that it draws. -/
def createAdminSession (readings : KeyReadings) (nonce : String) :
    Except SessionFault (String × String) := do
  let signature ← adminSignature hmac readings.second "session" nonce
  let csrf ← csrfToken hmac readings.third (sessionToken nonce signature)
  pure (sessionToken nonce signature, csrf)

/-- `exchange_admin`. -/
def exchangeAdmin (readings : KeyReadings) (key nonce : String) :
    Except SessionFault (String × String) := do
  let expected ← adminKey readings.first
  let same ← compareDigest key expected
  if same then createAdminSession hmac readings nonce else throw (.http 401 "invalid administrator key")

/-- `_session`. -/
def isSession (reading : Option String) (token : String) : Except SessionFault Bool :=
  match pieces '.' 2 token.toList with
  | [version, nonce, supplied] =>
    if version ≠ "v1".toList ∨ nonce = [] ∨ supplied = [] then .ok false
    else (adminSignature hmac reading "session" (String.ofList nonce)).bind
      (compareDigest (String.ofList supplied))
  | _ => .ok false

/-- The token of a request that only reads. -/
def WebRequest.token (request : WebRequest) : String :=
  if "Bearer ".toList.isPrefixOf request.authorization.toList then
    String.ofList (request.authorization.toList.drop 7)
  else request.cookie

/-- `is_admin`. -/
def isAdmin (reading : Option String) (request : WebRequest) : Except SessionFault Bool :=
  isSession hmac reading request.token

/-- `csrf_for`. -/
def csrfFor (first second : Option String) (request : WebRequest) :
    Except SessionFault (Option String) := do
  let authenticated ← isSession hmac first request.cookie
  if authenticated then (csrfToken hmac second request.cookie).map some else pure none

/-- `cookie_token`. -/
def cookieToken (reading : Option String) (request : WebRequest) :
    Except SessionFault (Option String) :=
  (isSession hmac reading request.cookie).map (fun authenticated => if authenticated then
    some request.cookie else none)

/-- `_http_origin`. -/
def WebRequest.httpOrigin (request : WebRequest) : String := request.scheme ++ "://" ++ request.host

/-- `is_admin_mutation`. -/
def isAdminMutation (readings : KeyReadings) (request : WebRequest) : Except SessionFault Bool := do
  let authenticated ← isSession hmac readings.first request.cookie
  if authenticated = true ∧ request.origin = request.httpOrigin ∧ request.csrf ≠ "" then
    let expected ← csrfToken hmac readings.second request.cookie
    compareDigest request.csrf expected
  else pure false

/-- `is_websocket_admin`. -/
def isWebsocketAdmin (reading : Option String) (request : WebRequest) : Except SessionFault Bool := do
  let authenticated ← isSession hmac reading request.cookie
  let scheme := if request.scheme = "wss" then "https" else "http"
  pure (authenticated && request.origin = scheme ++ "://" ++ request.host)

/-- The methods that change nothing. -/
def WebRequest.reads (request : WebRequest) : Bool := request.method ∈ ["GET", "HEAD", "OPTIONS"]

/-- `require_admin`. -/
def requireAdmin (readings : KeyReadings) (request : WebRequest) : Except SessionFault String := do
  let authenticated ← if request.reads then isAdmin hmac readings.first request
    else isAdminMutation hmac readings request
  if authenticated then pure "admin" else throw (.http 403 "administrator session required")

/-- `text.rstrip(".").lower()`. -/
def bareHost (text : String) : String :=
  String.ofList ((text.toList.reverse.dropWhile (· = '.')).reverse.map Char.toLower)

/-- `session_cookie_domain`, with the domain of the settings. -/
def sessionCookieDomain (domain : Option String) (request : WebRequest) :
    Except SessionFault (Option String) :=
  match domain with
  | none => .ok none
  | some domain =>
    if request.scheme ≠ "https" then .error (.http 400 "shared administrator sessions require HTTPS")
    else if bareHost request.hostname ≠ domain ∧
      ¬("." ++ domain).toList <:+ (bareHost request.hostname).toList then
      .error (.http 400 "request host is outside the configured session cookie domain")
    else .ok (some domain)

/-- `POST /api/v1/auth/local-sessions`: the token of the cookie and the CSRF token. -/
def localSession (domain : Option String) (readings : KeyReadings) (request : WebRequest)
    (key nonce : String) :
    Except SessionFault (String × String) := do
  let tokens ← exchangeAdmin hmac readings key nonce
  let _ ← sessionCookieDomain domain request
  pure tokens

/-- `GET /api/v1/auth/session`: the CSRF token. -/
def currentSession (domain : Option String) (readings : KeyReadings) (request : WebRequest) :
    Except SessionFault String := do
  let csrf ← csrfFor hmac readings.first readings.second request
  match csrf with
  | none => throw (.http 401 "administrator session required")
  | some csrf =>
    let token ← cookieToken hmac readings.third request
    if token.isSome then
      let _ ← sessionCookieDomain domain request
    pure csrf

end Manager

/-! ## Logins -/

/-- A key and a text that was signed with it. -/
structure SignedText where
  key : String
  text : String

/-- A login with the key that was shown and the key that signs its token. -/
structure WebLogin where
  readings : KeyReadings
  key : String
  signing : String
  nonce : String

/-- The record of a run: the logins, and what was signed and given out. -/
structure WebSessions where
  logins : List WebLogin := []
  released : List SignedText := []

inductive WebAct where
  | login (request : WebRequest) (key nonce : String) (readings : KeyReadings)
  | current (request : WebRequest) (readings : KeyReadings)

namespace WebSessions
variable (hmac : Hmac) (domain : Option String)

def signedWith (reading : Option String) (purpose value : String) : List SignedText :=
  match reading with
  | some content => [⟨strip content, adminText purpose value⟩]
  | none => []

def tokenOf (login : WebLogin) : String :=
  sessionToken login.nonce (hmac.digest login.signing (adminText "session" login.nonce))

/-- One request that answers with a token, or fails. -/
def step (s : WebSessions) : WebAct → WebSessions
  | .login request key nonce readings =>
    match localSession hmac domain readings request key nonce with
    | .ok (token, _) =>
      { logins := s.logins ++ [⟨readings, key, strip (readings.second.getD ""), nonce⟩]
        released := s.released ++ signedWith readings.second "session" nonce ++
          signedWith readings.third "csrf" token }
    | .error _ => s
  | .current request readings =>
    match currentSession hmac domain readings request with
    | .ok _ => { s with released := s.released ++ signedWith readings.second "csrf" request.cookie }
    | .error _ => s

/-- The key that the file holds at a reading. -/
def Holds (reading : Option String) (key : String) : Prop := reading.map strip = some key

/-- What is shown for a text that the code signs is no signature of it under the key of the file,
unless that was given out. -/
def Unforged (s : WebSessions) (reading : Option String) (text shown : String) : Prop :=
  ∀ key, Holds reading key → hmac.digest key text = shown → ⟨key, text⟩ ∈ s.released

/-- A part of a token. -/
def partOf (token : String) (n : Nat) : String :=
  String.ofList ((pieces '.' 2 token.toList)[n]?.getD [])

/-- The signature of a token is not forged. -/
def UnforgedSession (s : WebSessions) (reading : Option String) (token : String) : Prop :=
  Unforged hmac s reading (adminText "session" (partOf token 1)) (partOf token 2)

/-- The CSRF token of a request is not forged. -/
def UnforgedCsrf (s : WebSessions) (reading : Option String) (request : WebRequest) : Prop :=
  Unforged hmac s reading (adminText "csrf" request.cookie) request.csrf

/-- What `secrets.token_urlsafe` draws. -/
def Drawn (nonce : String) : Prop := nonce.toList ≠ [] ∧ '.' ∉ nonce.toList

/-- The world outside draws nonces and forges no signature. -/
def Genuine (s : WebSessions) : WebAct → Prop
  | .login _ _ nonce _ => Drawn nonce
  | .current request readings => UnforgedSession hmac s readings.first request.cookie

/-- A token that a login was given under the key that the file holds. -/
def Issued (s : WebSessions) (reading : Option String) (token : String) : Prop :=
  ∃ login ∈ s.logins, tokenOf hmac login = token ∧ Holds reading login.signing

/-- A request that changes something: from a page of this origin, which was given the CSRF token of
its session. -/
structure Entitled (s : WebSessions) (readings : KeyReadings) (request : WebRequest) : Prop where
  issued : Issued hmac s readings.first request.cookie
  origin : request.origin = request.httpOrigin
  csrf : ∃ key, Holds readings.second key ∧
    request.csrf = hmac.digest key (adminText "csrf" request.cookie) ∧
    ⟨key, adminText "csrf" request.cookie⟩ ∈ s.released

/-! ## What a run keeps -/

/-- A login with the key of the file. -/
structure Rightful (released : List SignedText) (login : WebLogin) : Prop where
  shown : Holds login.readings.first login.key
  signing : Holds login.readings.second login.signing
  drawn : Drawn login.nonce
  given : ⟨login.signing, adminText "session" login.nonce⟩ ∈ released

structure Kept (s : WebSessions) : Prop where
  logins : ∀ login ∈ s.logins, Rightful s.released login
  released : ∀ signed ∈ s.released,
    (∃ login ∈ s.logins, signed = ⟨login.signing, adminText "session" login.nonce⟩) ∨
    ∃ login ∈ s.logins, signed.text = adminText "csrf" (tokenOf hmac login)

variable {hmac domain} {s : WebSessions} {reading first second : Option String}
  {readings : KeyReadings} {token nonce key : String}
variable {request : WebRequest}

theorem adminText_session {a b : String} (same : adminText "session" a = adminText "session" b) :
    a = b := by
  simpa [adminText, ← String.toList_inj] using same

/-- A CSRF token is never the signature of a session. -/
theorem adminText_apart (a b : String) : adminText "session" a ≠ adminText "csrf" b := by
  intro same
  simp [adminText, ← String.toList_inj] at same

theorem ok_bind {ε α β : Type} {x : Except ε α} {f : α → Except ε β} {b : β} :
    (x >>= f) = .ok b ↔ ∃ a, x = .ok a ∧ f a = .ok b := by
  cases x <;> simp [bind, Except.bind]

theorem compareDigest_true {a b : String} :
    compareDigest a b = .ok true ↔ a = b ∧ b.toList.all (fun c => c.toNat < 128) = true := by
  unfold compareDigest
  simp only [List.all_append, Bool.and_eq_true]
  constructor
  · intro compared
    split at compared
    · next ascii =>
      simp only [Except.ok.injEq, decide_eq_true_eq] at compared
      exact ⟨compared, ascii.2⟩
    · cases compared
  · rintro ⟨rfl, ascii⟩
    simp [ascii]

theorem adminSignature_ok {purpose value signature : String} :
    adminSignature hmac reading purpose value = .ok signature ↔
    ∃ key, Holds reading key ∧ hmac.digest key (adminText purpose value) = signature := by
  cases reading with
  | none => simp [adminSignature, adminKey, Holds, Except.map]
  | some content => simp [adminSignature, adminKey, Holds, Except.map]

/-- The three parts of a token. -/
theorem pieces_token (drawn : '.' ∉ nonce.toList) (signature : String) :
    pieces '.' 2 (sessionToken nonce signature).toList =
    ["v1".toList, nonce.toList, signature.toList] := by
  have parts : (sessionToken nonce signature).toList = "v1".toList ++ '.' ::
    (nonce.toList ++ '.' :: signature.toList) := by
    simp [sessionToken]
  rw [parts, pieces_front (by decide), pieces_front drawn]
  rfl

/-- What `is_session` says of a token. -/
theorem isSession_true : isSession hmac reading token = .ok true ↔
    ∃ nonce key, nonce.toList ≠ [] ∧ Holds reading key ∧
      pieces '.' 2 token.toList =
      ["v1".toList, nonce.toList, (hmac.digest key (adminText "session" nonce)).toList] := by
  unfold isSession
  constructor
  · intro accepted
    split at accepted
    · next version nonce supplied parts =>
      split at accepted
      · cases accepted
      · next fits =>
        obtain ⟨signature, isSignature, same⟩ := ok_bind.mp accepted
        obtain ⟨key, holds, rfl⟩ := adminSignature_ok.mp isSignature
        obtain ⟨isSupplied, _⟩ := compareDigest_true.mp same
        push Not at fits
        refine ⟨String.ofList nonce, key, ?_, holds, ?_⟩
        · simpa using fits.2.1
        · rw [parts, ← isSupplied, fits.1]
          simp
    · cases accepted
  · rintro ⟨nonce, key, some_nonce, holds, parts⟩
    rw [parts]
    have signed : adminSignature hmac reading "session" nonce = .ok
      (hmac.digest key (adminText "session" nonce)) :=
      adminSignature_ok.mpr ⟨key, holds, rfl⟩
    have some_signature := hmac.some_digest key (adminText "session" nonce)
    simp only [ne_eq, not_true_eq_false, some_nonce, some_signature, or_self, if_false,
      String.ofList_toList, signed]
    exact compareDigest_true.mpr ⟨rfl, hmac.ascii _ _⟩

/-- A session is accepted if and only if a login was given its token under the key of the file. -/
theorem isSession_iff (kept : Kept hmac s) (unforged : UnforgedSession hmac s reading token) :
    isSession hmac reading token = .ok true ↔ Issued hmac s reading token := by
  rw [isSession_true]
  constructor
  · rintro ⟨nonce, key, some_nonce, holds, parts⟩
    have isNonce : partOf token 1 = nonce := by simp [partOf, parts]
    have shown : partOf token 2 = hmac.digest key (adminText "session" nonce) := by simp [partOf, parts]
    have given : ⟨key, adminText "session" nonce⟩ ∈ s.released := by
      rw [UnforgedSession, isNonce, shown] at unforged
      exact unforged key holds rfl
    obtain ⟨login, isLogin, same⟩ | ⟨login, isLogin, same⟩ := kept.released _ given
    · obtain ⟨rfl, texts⟩ := SignedText.mk.inj same
      obtain rfl := adminText_session texts
      refine ⟨login, isLogin, ?_, holds⟩
      have whole := @intercalate_pieces _ _ '.' 2 token.toList
      rw [parts] at whole
      rw [tokenOf, sessionToken, ← String.toList_inj, ← whole]
      simp [List.intercalate]
    · exact absurd same (adminText_apart _ _)
  · rintro ⟨login, isLogin, rfl, holds⟩
    have drawn := (kept.logins login isLogin).drawn
    exact ⟨login.nonce, login.signing, drawn.1, holds, pieces_token drawn.2 _⟩

theorem localSession_ok {csrf : String}
    (answered : localSession hmac domain readings request key nonce = .ok (token, csrf)) :
    Holds readings.first key ∧ ∃ signing, Holds readings.second signing ∧
      token = sessionToken nonce (hmac.digest signing (adminText "session" nonce)) := by
  obtain ⟨tokens, exchanged, rest⟩ := ok_bind.mp answered
  obtain ⟨_, _, returned⟩ := ok_bind.mp rest
  cases returned
  obtain ⟨expected, isExpected, compares⟩ := ok_bind.mp exchanged
  obtain ⟨same, compared, creates⟩ := ok_bind.mp compares
  cases same with
  | false => cases creates
  | true =>
    obtain ⟨rfl, _⟩ := compareDigest_true.mp compared
    obtain ⟨signature, isSignature, signs⟩ := ok_bind.mp creates
    obtain ⟨csrf, isCsrf, returned⟩ := ok_bind.mp signs
    cases returned
    obtain ⟨signing, holds, rfl⟩ := adminSignature_ok.mp isSignature
    refine ⟨?_, signing, holds, rfl⟩
    unfold adminKey at isExpected
    split at isExpected
    · next isContent =>
      cases isExpected
      simp [Holds, isContent]
    · cases isExpected

theorem currentSession_ok {csrf : String}
    (answered : currentSession hmac domain readings request = .ok csrf) :
    isSession hmac readings.first request.cookie = .ok true := by
  obtain ⟨found, isFound, later⟩ := ok_bind.mp answered
  obtain ⟨authenticated, accepted, rest⟩ := ok_bind.mp isFound
  cases authenticated with
  | false =>
    cases rest
    cases later
  | true => exact accepted

theorem signedWith_mem {purpose value : String} {signed : SignedText} :
    signed ∈ signedWith reading purpose value ↔ ∃ key, Holds reading key ∧
      signed = ⟨key, adminText purpose value⟩ := by
  cases reading <;> simp [signedWith, Holds]

theorem Kept.step {act : WebAct} (kept : Kept hmac s) (genuine : Genuine hmac s act) :
    Kept hmac (step hmac domain s act) := by
  cases act with
  | login request key nonce readings =>
    unfold WebSessions.step
    dsimp only
    split
    · next token csrf answered =>
      obtain ⟨shown, signing, holds, rfl⟩ := localSession_ok answered
      have isSigning : strip (readings.second.getD "") = signing := by
        obtain ⟨content, isContent, same⟩ := Option.map_eq_some_iff.mp holds
        simpa [isContent] using same
      rw [isSigning]
      have grows : ∀ signed ∈ s.released, signed ∈ s.released ++
        signedWith readings.second "session" nonce ++
          signedWith readings.third "csrf"
            (sessionToken nonce (hmac.digest signing (adminText "session" nonce))) := by
        intro signed isSigned
        simp [isSigned]
      constructor
      · intro login isLogin
        obtain old | new := List.mem_append.mp isLogin
        · have rightful := kept.logins login old
          exact { rightful with given := grows _ rightful.given }
        · cases List.mem_singleton.mp new
          refine ⟨shown, holds, genuine, List.mem_append_left _ (List.mem_append_right _ ?_)⟩
          exact signedWith_mem.mpr ⟨signing, holds, rfl⟩
      · intro signed isSigned
        have last : (⟨readings, key, signing, nonce⟩ : WebLogin) ∈ s.logins ++
          [⟨readings, key, signing, nonce⟩] := by simp
        simp only [List.append_assoc, List.mem_append] at isSigned
        obtain old | session | csrf := isSigned
        · refine (kept.released signed old).imp ?_ ?_
          · rintro ⟨login, isLogin, same⟩
            exact ⟨login, List.mem_append_left _ isLogin, same⟩
          · rintro ⟨login, isLogin, same⟩
            exact ⟨login, List.mem_append_left _ isLogin, same⟩
        · obtain ⟨other, holdsOther, rfl⟩ := signedWith_mem.mp session
          obtain rfl := Option.some.inj (holdsOther.symm.trans holds)
          exact .inl ⟨_, last, rfl⟩
        · obtain ⟨_, _, rfl⟩ := signedWith_mem.mp csrf
          exact .inr ⟨_, last, rfl⟩
    · exact kept
  | current request readings =>
    unfold WebSessions.step
    dsimp only
    split
    · next csrf answered =>
      obtain ⟨login, isLogin, isToken, holds⟩ :=
        (isSession_iff kept genuine).mp (currentSession_ok answered)
      constructor
      · intro other isOther
        have rightful := kept.logins other isOther
        exact { rightful with given := List.mem_append_left _ rightful.given }
      · intro signed isSigned
        obtain old | new := List.mem_append.mp isSigned
        · exact kept.released signed old
        · obtain ⟨key, _, rfl⟩ := signedWith_mem.mp new
          exact .inr ⟨login, isLogin, by rw [isToken]⟩
    · exact kept

theorem run_kept {acts : List WebAct}
    (run : Run (Guarded (fun s act t => step hmac domain s act = t) (Genuine hmac)) {} acts s) :
    Kept hmac s := by
  refine run.invariant ?_ ⟨fun _ none => absurd none List.not_mem_nil, fun _ none =>
    absurd none List.not_mem_nil⟩
  rintro s act t kept ⟨rfl, genuine⟩
  exact kept.step genuine

/-! ## Who is let in -/

theorem isAdminMutation_iff (kept : Kept hmac s)
    (unforged : UnforgedSession hmac s readings.first request.cookie)
    (genuine : UnforgedCsrf hmac s readings.second request) :
    isAdminMutation hmac readings request = .ok true ↔ Entitled hmac s readings request := by
  unfold isAdminMutation
  rw [ok_bind]
  constructor
  · rintro ⟨authenticated, accepted, rest⟩
    split at rest
    · next asked =>
      obtain ⟨rfl, origin, _⟩ := asked
      obtain ⟨expected, isExpected, compared⟩ := ok_bind.mp rest
      obtain ⟨key, holds, rfl⟩ := adminSignature_ok.mp isExpected
      obtain ⟨isCsrf, _⟩ := compareDigest_true.mp compared
      exact ⟨(isSession_iff kept unforged).mp accepted, origin, key, holds, isCsrf,
        genuine key holds isCsrf.symm⟩
    · cases rest
  · rintro ⟨issued, origin, key, holds, isCsrf, _⟩
    refine ⟨true, (isSession_iff kept unforged).mpr issued, ?_⟩
    have some_csrf : request.csrf ≠ "" := by
      intro empty
      exact hmac.some_digest key (adminText "csrf" request.cookie) (by simp [← isCsrf, empty])
    rw [if_pos ⟨rfl, origin, some_csrf⟩]
    refine ok_bind.mpr ⟨_, adminSignature_ok.mpr ⟨key, holds, rfl⟩, ?_⟩
    exact compareDigest_true.mpr ⟨isCsrf, hmac.ascii _ _⟩

theorem requireAdmin_iff (kept : Kept hmac s)
    (bearer : UnforgedSession hmac s readings.first request.token)
    (cookie : UnforgedSession hmac s readings.first request.cookie)
    (csrf : UnforgedCsrf hmac s readings.second request) :
    requireAdmin hmac readings request = .ok "admin" ↔
      if request.reads then Issued hmac s readings.first request.token
        else Entitled hmac s readings request := by
  have allowed : ∀ asked : Except SessionFault Bool,
      (asked >>= fun authenticated => if authenticated then pure "admin"
        else throw (.http 403 "administrator session required")) =
        .ok "admin" ↔ asked = .ok true := by
    intro asked
    rw [ok_bind]
    constructor
    · rintro ⟨authenticated, isAsked, rest⟩
      cases authenticated with
      | false => cases rest
      | true => exact isAsked
    · intro isAsked
      exact ⟨true, isAsked, rfl⟩
  unfold requireAdmin
  dsimp only
  split
  · exact (allowed _).trans (isSession_iff kept bearer)
  · exact (allowed _).trans (isAdminMutation_iff kept cookie csrf)

theorem isWebsocketAdmin_iff (kept : Kept hmac s)
    (cookie : UnforgedSession hmac s reading request.cookie) :
    isWebsocketAdmin hmac reading request = .ok true ↔ Issued hmac s reading request.cookie ∧
      request.origin = (if request.scheme = "wss" then "https" else "http") ++ "://" ++
        request.host := by
  rw [← isSession_iff kept cookie, isWebsocketAdmin, ok_bind]
  constructor
  · rintro ⟨authenticated, accepted, rest⟩
    have both : authenticated = true ∧
      request.origin = (if request.scheme = "wss" then "https" else "http") ++ "://" ++
      request.host := by
      simpa [pure, Except.pure] using rest
    exact ⟨both.1 ▸ accepted, both.2⟩
  · rintro ⟨accepted, origin⟩
    exact ⟨true, accepted, by simp [pure, Except.pure, origin]⟩

/-- Whoever logs in and whatever is shown, as long as no signature is forged: each login showed the
key of the file. A request that reads is let in if and only if it shows a token that a login was
given under the key that the file still holds; one that changes something, and a socket, only from
the own origin, and the former with the CSRF token that was given out for this very token. -/
theorem web_sessions {acts : List WebAct}
    (run : Run (Guarded (fun s act t => step hmac domain s act = t) (Genuine hmac)) {} acts s) :
    (∀ login ∈ s.logins, Holds login.readings.first login.key ∧
      Holds login.readings.second login.signing) ∧
    (∀ signed ∈ s.released, ∃ login ∈ s.logins,
      signed = ⟨login.signing, adminText "session" login.nonce⟩ ∨
      signed.text = adminText "csrf" (tokenOf hmac login)) ∧
    ∀ readings request, UnforgedSession hmac s readings.first request.token →
      UnforgedSession hmac s readings.first request.cookie →
        UnforgedCsrf hmac s readings.second request →
      (requireAdmin hmac readings request = .ok "admin" ↔
        if request.reads then Issued hmac s readings.first request.token
          else Entitled hmac s readings request) ∧
      (isWebsocketAdmin hmac readings.first request = .ok true ↔
        Issued hmac s readings.first request.cookie ∧
        request.origin = (if request.scheme = "wss" then "https" else "http") ++ "://" ++
          request.host) := by
  have kept := run_kept run
  refine ⟨fun login isLogin =>
    ⟨(kept.logins login isLogin).shown, (kept.logins login isLogin).signing⟩, ?_, ?_⟩
  · intro signed isSigned
    obtain ⟨login, isLogin, same⟩ | ⟨login, isLogin, same⟩ := kept.released signed isSigned
    · exact ⟨login, isLogin, .inl same⟩
    · exact ⟨login, isLogin, .inr same⟩
  · intro readings request bearer cookie csrf
    exact ⟨requireAdmin_iff kept bearer cookie csrf, isWebsocketAdmin_iff kept cookie⟩

/-- HMAC-SHA256 with the key `k` on what the run below signs. -/
def sampleHmac : Hmac where
  digest := fun key text =>
    if key = "k" ∧ text = adminText "session" "n" then
      "6bae62ae2d6fcf9693eefbb9dd1562ab4b25deb2703e98b8a9f252ca3e745b1c"
    else if key = "k" ∧ text =
      adminText "csrf" "v1.n.6bae62ae2d6fcf9693eefbb9dd1562ab4b25deb2703e98b8a9f252ca3e745b1c" then
      "e812d1bca899c78204a08b8ab9af90d7e14b47ded5a1d2d88c54bfb8fe22aed7"
    else "0000000000000000000000000000000000000000000000000000000000000000"
  some_digest := by
    intro key text
    split
    · decide
    · split <;> decide
  ascii := by
    intro key text
    split
    · decide +kernel
    · split <;> decide +kernel

def sampleReadings : KeyReadings := ⟨some "k\n", some "k\n", some "k\n"⟩

def sampleMutation : WebRequest where
  method := "POST"
  scheme := "https"
  host := "flow.example:8443"
  hostname := "flow.example"
  origin := "https://flow.example:8443"
  authorization := ""
  cookie := "v1.n.6bae62ae2d6fcf9693eefbb9dd1562ab4b25deb2703e98b8a9f252ca3e745b1c"
  csrf := "e812d1bca899c78204a08b8ab9af90d7e14b47ded5a1d2d88c54bfb8fe22aed7"

theorem sample_run : step sampleHmac none {} (.login sampleMutation "k" "n" sampleReadings) =
    ⟨[⟨sampleReadings, "k", "k", "n"⟩],
      [⟨"k", adminText "session" "n"⟩, ⟨"k", adminText "csrf" sampleMutation.cookie⟩]⟩ := by
  rfl

theorem sample_unforged :
    UnforgedSession sampleHmac
    (step sampleHmac none {} (.login sampleMutation "k" "n" sampleReadings)) (some "k\n")
      sampleMutation.cookie ∧
    UnforgedCsrf sampleHmac (step sampleHmac none {} (.login sampleMutation "k" "n" sampleReadings))
    (some "k\n")
      sampleMutation := by
  rw [sample_run]
  constructor
  · rintro key holds _
    cases holds
    exact List.mem_cons_self
  · rintro key holds _
    cases holds
    exact List.mem_cons_of_mem _ List.mem_cons_self

/-- After a login its page may change something. -/
theorem web_sessions_mutation :
    requireAdmin sampleHmac sampleReadings sampleMutation = .ok "admin" := by
  have run : Run (Guarded (fun s act t => step sampleHmac none s act = t) (Genuine sampleHmac)) {}
      [.login sampleMutation "k" "n" sampleReadings]
        (step sampleHmac none {} (.login sampleMutation "k" "n" sampleReadings)) :=
    .single ⟨rfl, show "n".toList ≠ [] ∧ '.' ∉ "n".toList by decide⟩
  obtain ⟨_, _, admits⟩ := web_sessions run
  have token : sampleMutation.token = sampleMutation.cookie := by rfl
  obtain ⟨session, csrf⟩ := sample_unforged
  obtain ⟨admitted, _⟩ := admits sampleReadings sampleMutation (token ▸ session) session csrf
  rw [admitted, if_neg (by decide)]
  refine ⟨⟨⟨sampleReadings, "k", "k", "n"⟩, ?_, rfl, rfl⟩, rfl, "k", rfl, rfl, ?_⟩
  · rw [sample_run]
    exact List.mem_cons_self
  · rw [sample_run]
    exact List.mem_cons_of_mem _ List.mem_cons_self

end WebSessions
end LocalFlow
