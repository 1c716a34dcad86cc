import Mathlib.Algebra.Order.Field.Rat
import Mathlib.Data.List.Nodup
import Mathlib.Data.Rat.Floor
import QuantStrategies.Lib.Pool
import QuantStrategies.Lib.TtlCache

/-!
# Sessions

Who signs in is given a token that names the user and the generation of the user's sessions.
An administrator who changes the password, deactivates the user or signs the user out
everywhere raises the generation, and the tokens of the one before are to be worth nothing.
A request that shows a token is let in by the row of the user, which is kept in a cache for
five seconds.

The requests are workers of a pool, and the administrator is the world. A request that does
not find its user in the cache reads the row, and puts it into the cache in a step of its
own, and so does a login, whose password is verified in between. By then the row may have
been written again. What a request is let in by was the row of the user no longer ago than
five seconds and the time `hold` that passes between a read and its insertion.

The rows are kept as they have been written, newest first, with the times of the writes; a
reader is given the newest one. So are the logins, with the row and the password by which each
of them went through: a record of what happened, that no program reads. What signs tokens and
what verifies passwords are parameters.

The bound is not the five seconds of the cache. A request is let in by a row that was read
`hold` before it was put into the cache, where `hold` is how long a request or a login may
take between its read and its insertion. That is a property of the server and not of this
code, and a parameter here.
-/

/-- A row of `CORE_ADMIN.APP_USER`, as far as it is read. -/
structure AppUser where
  /-- The key of the user. -/
  appUserId : ℕ
  /-- The name that is signed in with, which is one user's. -/
  username : String
  /-- What a password is verified against. -/
  passwordHash : String
  /-- Whether the user may sign in and be let in. -/
  isActiveInd : Char
  /-- The generation that a token has to name. -/
  sessionGen : ℕ
deriving DecidableEq

/-- `_app_user_row_is_active`. -/
def AppUser.isActive (user : AppUser) : Bool := user.isActiveInd = 'Y' || user.isActiveInd = 'y'

/-- What a token says. -/
structure Claims where
  /-- The user that it was made for. -/
  sub : ℕ
  /-- The generation of the user's sessions at that time. -/
  ver : ℕ
  /-- When it was made. -/
  iat : ℤ
  /-- When it is no longer taken. -/
  exp : ℤ
  /-- Who made it. -/
  iss : String
deriving DecidableEq

/-- The user of a request. -/
structure CurrentUser where
  /-- The key of the user. -/
  appUserId : ℕ
  /-- The name. -/
  username : String
  /-- The generation, as the row had it. -/
  sessionGen : ℕ
deriving DecidableEq

namespace Auth

/-- `JWT_ISSUER`. -/
def jwtIssuer : String := "quant-strategies"

/-- `JWT_TTL_SECONDS`. -/
def jwtTtlSeconds : ℤ := 7 * 24 * 60 * 60

/-- `CACHE_TTL_SECONDS`. -/
def cacheTtlSeconds : ℚ := 5

/-- What signs and verifies tokens, with the secret of the service, and what verifies
passwords. -/
structure Crypto (T : Type) where
  /-- Signs a token. -/
  encode : Claims → T
  /-- Verifies one at a time, and reads what it says. -/
  decode : ℚ → T → Option Claims
  /-- Whether a password fits a hash. -/
  verify : String → String → Bool
  /-- What a password is verified against where there is no user, so that both take as long. -/
  dummyHash : String

/-- A token that has been signed is verified while it is valid, and says what was signed. -/
def Crypto.Signs {T : Type} (crypto : Crypto T) : Prop :=
  ∀ now claims, crypto.decode now (crypto.encode claims) =
    if claims.iss = jwtIssuer ∧ claims.iat ≤ now ∧ now < claims.exp then some claims else none

/-- A login that went through: when its token was made, the row that it went by, and the
password that was given. -/
structure Login where
  /-- When the token was made. -/
  time : ℚ
  /-- The row that the password was verified against. -/
  row : AppUser
  /-- The password. -/
  password : String
deriving DecidableEq

/-- The clock, the rows of the users as they were written, newest first, the cache, the tokens
that have been given out, and the logins that went through, which no program reads. -/
structure AuthState (T : Type) where
  /-- What the clock shows, in seconds. -/
  now : ℚ
  /-- Every row that was written, with the time of the write, the newest first. -/
  users : List (ℚ × AppUser)
  /-- The rows that are kept, each until it expires. -/
  cache : TtlCache ℕ ℚ AppUser
  /-- Every token that was given out. -/
  tokens : List T
  /-- Every login that went through, for what is proved and for nothing else. -/
  logins : List Login

/-- A request: one that shows its cookie, be it to sign out, or one that signs in. `readAt` is
when it has read its row, and the password of `mint` is the one that was verified; no program
reads them. -/
inductive AuthRequest (T : Type) where
  | require (cookie : Option T) (logout : Bool)
  | resolve (claims : Claims) (logout : Bool)
  | fetch (claims : Claims) (logout : Bool)
  | cacheFetched (claims : Claims) (readAt : ℚ) (row : AppUser) (logout : Bool)
  | admitted (claims : Claims) (user : CurrentUser) (admittedAt : ℚ) (logout : Bool)
  | rejected
  | login (username password : String)
  | verify (readAt : ℚ) (row : Option AppUser) (password : String)
  | mint (readAt : ℚ) (row : AppUser) (password : String)
  | cacheLogin (readAt : ℚ) (row : AppUser) (token : T)
  | loggedIn (row : AppUser) (token : T)
deriving DecidableEq

/-- What is written beside the requests: time passes, and an administrator adds a user, or
changes one. -/
inductive AuthWorld where
  | tick (d : ℚ)
  | insUser (appUserId : ℕ) (username passwordHash : String)
  | updPassword (username passwordHash : String)
  | updActive (username : String) (isActiveInd : Char)
  | bumpToken (username : String)

/-- What begins. -/
inductive AuthStart (T : Type) where
  | request (cookie : Option T) (logout : Bool)
  | login (username password : String)

variable {T : Type}

/-- The rows of a user, newest first. -/
def rowsOf (users : List (ℚ × AppUser)) (appUserId : ℕ) : List (ℚ × AppUser) :=
  users.filter (fun u => u.2.appUserId = appUserId)

/-- `get_user_by_id`. -/
def getUserById (users : List (ℚ × AppUser)) (appUserId : ℕ) : Option AppUser :=
  (rowsOf users appUserId).head?.map Prod.snd

/-- `get_user_by_username`. -/
def getUserByUsername (users : List (ℚ × AppUser)) (username : String) : Option AppUser :=
  (users.find? (fun u => u.2.username = username)).map Prod.snd

/-- An update of the row of a user; there may be none. -/
def AuthState.update (s : AuthState T) (username : String) (f : AppUser → AppUser) :
    AuthState T :=
  match getUserByUsername s.users username with
  | none => s
  | some row => { s with users := (s.now, f row) :: s.users }

/-- `create_token`. -/
def createToken (now : ℚ) (appUserId sessionGen : ℕ) : Claims where
  sub := appUserId
  ver := sessionGen
  iat := ⌊now⌋
  exp := ⌊now⌋ + jwtTtlSeconds
  iss := jwtIssuer

/-- What the token of a login says. -/
def Login.claims (login : Login) : Claims :=
  createToken login.time login.row.appUserId login.row.sessionGen

/-- The end of `resolve_current_user`: by the row of the user. -/
def judge (now : ℚ) (claims : Claims) (row : AppUser) (logout : Bool) : AuthRequest T :=
  if row.isActive = false then .rejected
  else if row.sessionGen ≠ claims.ver then .rejected
  else .admitted claims ⟨claims.sub, row.username, row.sessionGen⟩ now logout

/-- `verify_credentials`. A user that there is not is verified against a dummy. -/
def verifyCredentials (crypto : Crypto T) (row : Option AppUser) (password : String) :
    Option AppUser :=
  if crypto.verify ((row.map AppUser.passwordHash).getD crypto.dummyHash) password then
    row.filter AppUser.isActive
  else none

/-- One step of a request. -/
def stepRequest (crypto : Crypto T) (s : AuthState T) :
    AuthRequest T → Option (AuthState T × AuthRequest T)
  | .require cookie logout => some (s, match cookie.bind (crypto.decode s.now) with
      | none => .rejected
      | some claims => .resolve claims logout)
  | .resolve claims logout =>
      let found := s.cache.get s.now claims.sub
      some ({ s with cache := found.2 }, match found.1 with
        | none => .fetch claims logout
        | some row => judge s.now claims row logout)
  | .fetch claims logout => some (s, match getUserById s.users claims.sub with
      | none => .rejected
      | some row => .cacheFetched claims s.now row logout)
  | .cacheFetched claims _ row logout =>
      some ({ s with cache := s.cache.put row.appUserId (s.now + cacheTtlSeconds) row },
        judge s.now claims row logout)
  -- who signs out is dropped from the cache; the cookie is the client's
  | .admitted claims user admittedAt true =>
      some ({ s with cache := s.cache.drop user.appUserId },
        .admitted claims user admittedAt false)
  | .login username password =>
      some (s, .verify s.now (getUserByUsername s.users username) password)
  | .verify readAt row password => some (s, match verifyCredentials crypto row password with
      | none => .rejected
      | some row => .mint readAt row password)
  | .mint readAt row password =>
      let token := crypto.encode (createToken s.now row.appUserId row.sessionGen)
      some ({ s with tokens := token :: s.tokens, logins := ⟨s.now, row, password⟩ :: s.logins },
        .cacheLogin readAt row token)
  | .cacheLogin _ row token =>
      some ({ s with cache := s.cache.put row.appUserId (s.now + cacheTtlSeconds) row },
        .loggedIn row token)
  | .admitted _ _ _ false | .rejected | .loggedIn _ _ => none

/-- What is written beside the requests. The clock does not go back, and a user is added
under an id and a name that nobody has. -/
def stepAuthWorld (s : AuthState T) : AuthWorld → Option (AuthState T)
  | .tick d => if 0 ≤ d then some { s with now := s.now + d } else none
  | .insUser appUserId username passwordHash =>
      if s.users.any (fun u => u.2.appUserId = appUserId || u.2.username = username) then none
      else some { s with users := (s.now, ⟨appUserId, username, passwordHash, 'Y', 1⟩) :: s.users }
  | .updPassword username passwordHash => some (s.update username (fun row =>
      { row with passwordHash := passwordHash, sessionGen := row.sessionGen + 1 }))
  | .updActive username isActiveInd => some (s.update username (fun row =>
      { row with isActiveInd := isActiveInd, sessionGen := row.sessionGen + 1 }))
  | .bumpToken username => some (s.update username (fun row =>
      { row with sessionGen := row.sessionGen + 1 }))

/-- What begins. -/
def startRequest : AuthStart T → AuthRequest T
  | .request cookie logout => .require cookie logout
  | .login username password => .login username password

/-- The requests of the API, on whatever users there are and none in the cache. -/
def authPool (crypto : Crypto T) :
    Pool (AuthState T) (AuthRequest T) AuthWorld (AuthStart T) Unit where
  Init s := s.users = [] ∧ s.cache = TtlCache.empty ∧ s.tokens = [] ∧ s.logins = []
  env := stepAuthWorld
  fresh _ _ b := some (startRequest b)
  work s w _ := stepRequest crypto s w

/-- The condition on a step: a cookie is a token that was given out, or none; and what has
been read is put into the cache within `hold`. -/
def Prompt (crypto : Crypto T) (hold : ℚ) (s : AuthState T) : AuthRequest T → Unit → Prop
  | .require cookie _, _ => ∀ token ∈ cookie, token ∈ s.tokens ∨ crypto.decode s.now token = none
  | .cacheFetched _ readAt _ _, _ => s.now - readAt ≤ hold
  | .cacheLogin readAt _ _, _ => s.now - readAt ≤ hold
  | _, _ => True

/-! ## The rows of a user -/

section Rows

variable {users : List (ℚ × AppUser)} {appUserId : ℕ} {row : AppUser} {u : ℚ × AppUser}

/-- The rows of a user are those of the log that have the user's key. -/
theorem mem_rowsOf : u ∈ rowsOf users appUserId ↔ u ∈ users ∧ u.2.appUserId = appUserId := by
  rw [rowsOf, List.mem_filter, decide_eq_true_eq]

/-- A write is one of the user's rows, or leaves them as they were. -/
theorem rowsOf_cons : rowsOf (u :: users) appUserId =
    if u.2.appUserId = appUserId then u :: rowsOf users appUserId
    else rowsOf users appUserId := by
  rw [rowsOf, List.filter_cons]
  exact if_congr decide_eq_true_iff rfl rfl

/-- What is read of a user is the newest row. -/
theorem rowsOf_of_getUserById (h : getUserById users appUserId = some row) :
    ∃ t older, rowsOf users appUserId = (t, row) :: older := by
  obtain ⟨⟨t, row'⟩, hhead, rfl⟩ := Option.map_eq_some_iff.mp h
  obtain ⟨older, hrows⟩ := List.head?_eq_some_iff.mp hhead
  exact ⟨t, older, hrows⟩

/-- What holds of the users: a name is one user's, and later rows of a user have higher
generations. -/
structure UsersInv (users : List (ℚ × AppUser)) : Prop where
  /-- A name and a key stand for the same user. -/
  names : ∀ u ∈ users, ∀ v ∈ users, u.2.username = v.2.username ↔ u.2.appUserId = v.2.appUserId
  /-- Each write of a user raises the generation, so that a row is known by it. -/
  rising : ∀ appUserId, (rowsOf users appUserId).Pairwise
    (fun later earlier => earlier.2.sessionGen < later.2.sessionGen)

/-- A user that is found by name was written, and has that name. -/
theorem mem_of_getUserByUsername {username : String}
    (h : getUserByUsername users username = some row) :
    ∃ t, (t, row) ∈ users ∧ row.username = username := by
  obtain ⟨⟨t, row'⟩, hfind, rfl⟩ := Option.map_eq_some_iff.mp h
  have hdec := List.find?_some hfind
  exact ⟨t, List.mem_of_find?_eq_some hfind, of_decide_eq_true hdec⟩

/-- So is what is read by a name. -/
theorem UsersInv.rowsOf_eq (hU : UsersInv users) {username : String}
    (h : getUserByUsername users username = some row) :
    ∃ t older, rowsOf users row.appUserId = (t, row) :: older := by
  obtain ⟨t, hmem, rfl⟩ := mem_of_getUserByUsername h
  have hrows : rowsOf users row.appUserId =
      users.filter (fun u => u.2.username = row.username) :=
    List.filter_congr fun u hu => decide_eq_decide.mpr (hU.names u hu (t, row) hmem).symm
  refine rowsOf_of_getUserById ?_
  rw [getUserById, hrows, List.head?_filter]
  exact h

/-- Rows of one user with one generation are one row. -/
theorem UsersInv.eq_of_sessionGen (hU : UsersInv users) {v : ℚ × AppUser}
    (hu : u ∈ rowsOf users appUserId) (hv : v ∈ rowsOf users appUserId)
    (hgen : u.2.sessionGen = v.2.sessionGen) : u = v := by
  have hnodup : ((rowsOf users appUserId).map (fun u => u.2.sessionGen)).Nodup :=
    List.pairwise_map.mpr ((hU.rising appUserId).imp fun h => h.ne')
  exact List.inj_on_of_nodup_map hnodup hu hv hgen

/-- A row is written for a user with the next generation. -/
theorem UsersInv.update (hU : UsersInv users) {username : String} {row' : AppUser} {t : ℚ}
    (h : getUserByUsername users username = some row) (hid : row'.appUserId = row.appUserId)
    (hname : row'.username = row.username) (hgen : row.sessionGen < row'.sessionGen) :
    UsersInv ((t, row') :: users) := by
  obtain ⟨t₀, hmem, -⟩ := mem_of_getUserByUsername h
  refine ⟨fun u hu v hv => ?_, fun appUserId => ?_⟩
  · obtain rfl | hu := List.mem_cons.mp hu
    · obtain rfl | hv := List.mem_cons.mp hv
      · exact iff_of_true rfl rfl
      · rw [hid, hname]
        exact hU.names _ hmem v hv
    · obtain rfl | hv := List.mem_cons.mp hv
      · rw [hid, hname]
        exact hU.names u hu _ hmem
      · exact hU.names u hu v hv
  · rw [rowsOf_cons]
    split
    · next hk =>
      obtain ⟨t₁, older, hrows⟩ := hU.rowsOf_eq h
      rw [← hid, hk] at hrows
      have hrising := hU.rising appUserId
      refine List.pairwise_cons.mpr ⟨fun u hu => ?_, hrising⟩
      rw [hrows] at hu hrising
      obtain rfl | hu := List.mem_cons.mp hu
      · exact hgen
      · exact ((List.pairwise_cons.mp hrising).1 u hu).trans hgen
    · exact hU.rising appUserId

/-- A user is added. -/
theorem UsersInv.insert (hU : UsersInv users) {t : ℚ}
    (hfresh : ∀ u ∈ users, u.2.appUserId ≠ row.appUserId ∧ u.2.username ≠ row.username) :
    UsersInv ((t, row) :: users) := by
  refine ⟨fun u hu v hv => ?_, fun appUserId => ?_⟩
  · obtain rfl | hu := List.mem_cons.mp hu
    · obtain rfl | hv := List.mem_cons.mp hv
      · exact iff_of_true rfl rfl
      · exact iff_of_false (hfresh v hv).2.symm (hfresh v hv).1.symm
    · obtain rfl | hv := List.mem_cons.mp hv
      · exact iff_of_false (hfresh u hu).2 (hfresh u hu).1
      · exact hU.names u hu v hv
  · rw [rowsOf_cons]
    split
    · next hk =>
      refine List.pairwise_cons.mpr ⟨fun u hu => ?_, hU.rising appUserId⟩
      obtain ⟨hmem, hid⟩ := mem_rowsOf.mp hu
      exact absurd (hid.trans hk.symm) (hfresh u hmem).1
    · exact hU.rising appUserId

end Rows

/-! ## What the world writes -/

section World

variable {s s' : AuthState T}

/-- What is written beside the requests: time passes, or a row is written. -/
structure Written (s s' : AuthState T) : Prop where
  /-- The requests' cache is left alone. -/
  cache : s'.cache = s.cache
  /-- No token is given out. -/
  tokens : s'.tokens = s.tokens
  /-- Nobody signs in. -/
  logins : s'.logins = s.logins
  /-- The clock does not go back. -/
  now : s.now ≤ s'.now
  /-- No row is taken back. -/
  mem : ∀ u ∈ s.users, u ∈ s'.users
  /-- A user has one row more, written now, or the rows that there were. -/
  rows : ∀ appUserId, rowsOf s'.users appUserId = rowsOf s.users appUserId ∨
    ∃ y, rowsOf s'.users appUserId = (s.now, y) :: rowsOf s.users appUserId

/-- Nothing at all is written where nothing happens. -/
theorem Written.refl (s : AuthState T) : Written s s :=
  ⟨rfl, rfl, rfl, le_rfl, fun _ => id, fun _ => .inl rfl⟩

/-- A row that is written is written now. -/
theorem Written.cons (s : AuthState T) (row : AppUser) :
    Written s { s with users := (s.now, row) :: s.users } := by
  refine ⟨rfl, rfl, rfl, le_rfl, fun u hu => List.mem_cons_of_mem _ hu, fun appUserId => ?_⟩
  rw [rowsOf_cons]
  split
  · exact .inr ⟨row, rfl⟩
  · exact .inl rfl

/-- **An administrator's write** raises the generation of the user that it is about, and keeps
what holds of the users: the key and the name stay as they were. -/
theorem update_written (hU : UsersInv s.users) (username : String) {f : AppUser → AppUser}
    (hid : ∀ row, (f row).appUserId = row.appUserId)
    (hname : ∀ row, (f row).username = row.username)
    (hgen : ∀ row, row.sessionGen < (f row).sessionGen) :
    UsersInv (s.update username f).users ∧ Written s (s.update username f) := by
  unfold AuthState.update
  cases hrow : getUserByUsername s.users username with
  | none => exact ⟨hU, .refl s⟩
  | some row => exact ⟨hU.update hrow (hid row) (hname row) (hgen row), .cons s (f row)⟩

/-- So does everything that the world does: time passes, or one of these writes happens. -/
theorem stepAuthWorld_written {e : AuthWorld} (hU : UsersInv s.users)
    (h : stepAuthWorld s e = some s') : UsersInv s'.users ∧ Written s s' := by
  cases e with
  | tick d =>
    simp only [stepAuthWorld] at h
    split at h
    · next hd =>
      obtain rfl := Option.some.inj h
      exact ⟨hU, rfl, rfl, rfl, le_add_of_nonneg_right hd, fun _ => id, fun _ => .inl rfl⟩
    · cases h
  | insUser appUserId username passwordHash =>
    simp only [stepAuthWorld] at h
    split at h
    · cases h
    · next hnone =>
      obtain rfl := Option.some.inj h
      refine ⟨hU.insert fun u hu => ?_, .cons s _⟩
      have hu' : ¬ (u.2.appUserId = appUserId || u.2.username = username) = true :=
        fun hboth => hnone (List.any_eq_true.mpr ⟨u, hu, hboth⟩)
      simpa using hu'
  | updPassword username passwordHash =>
    obtain rfl := Option.some.inj h
    exact update_written hU username (fun _ => rfl) (fun _ => rfl) fun _ => Nat.lt_succ_self _
  | updActive username isActiveInd =>
    obtain rfl := Option.some.inj h
    exact update_written hU username (fun _ => rfl) (fun _ => rfl) fun _ => Nat.lt_succ_self _
  | bumpToken username =>
    obtain rfl := Option.some.inj h
    exact update_written hU username (fun _ => rfl) (fun _ => rfl) fun _ => Nat.lt_succ_self _

/-- A row that was current at a time in the past still was, after a write of the present. -/
theorem Written.currentSince (h : Written s s') {appUserId : ℕ} {a : ℚ} {row : AppUser}
    (hcur : CurrentSince (rowsOf s.users appUserId) a row) (ha : a ≤ s.now) :
    CurrentSince (rowsOf s'.users appUserId) a row := by
  obtain hrows | ⟨y, hrows⟩ := h.rows appUserId
  · exact hrows ▸ hcur
  · exact hrows ▸ hcur.append ha

end World

/-! ## What holds in a run -/

/-- A login went through by an active row of a user, with the password of that row, and its
token says this. -/
def SignedIn (crypto : Crypto T) (logins : List Login) (users : List (ℚ × AppUser))
    (claims : Claims) : Prop :=
  ∃ login ∈ logins, claims = login.claims ∧
    (∃ t, (t, login.row) ∈ rowsOf users login.row.appUserId) ∧ login.row.isActive = true ∧
      crypto.verify login.row.passwordHash login.password = true

/-- What holds of the shared state. -/
structure AuthInv (crypto : Crypto T) (hold : ℚ) (s : AuthState T) : Prop where
  /-- A name is one user's, and generations rise. -/
  users : UsersInv s.users
  /-- What is kept was current no longer ago than its time to live and the hold. -/
  cache : s.cache.Backed (rowsOf s.users) (hold + cacheTtlSeconds) s.now
  /-- Every token was made at a login that went through, by the row of its user. -/
  tokens : ∀ token ∈ s.tokens, ∃ claims, token = crypto.encode claims ∧
    SignedIn crypto s.logins s.users claims

/-- A row that was read at a time. -/
structure Read (s : AuthState T) (readAt : ℚ) (row : AppUser) : Prop where
  /-- It was read in the past. -/
  past : readAt ≤ s.now
  /-- And was the user's row when it was read. -/
  current : CurrentSince (rowsOf s.users row.appUserId) readAt row

/-- A user is let in by a row that was current within the lag. -/
def AdmittedBy (lag : ℚ) (s : AuthState T) (claims : Claims) (user : CurrentUser)
    (admittedAt : ℚ) : Prop :=
  ∃ row, CurrentSince (rowsOf s.users claims.sub) (admittedAt - lag) row ∧ row.isActive = true ∧
    row.sessionGen = claims.ver ∧ user = ⟨claims.sub, row.username, row.sessionGen⟩

/-- What holds of a request. -/
def RequestInv (crypto : Crypto T) (hold : ℚ) (s : AuthState T) : AuthRequest T → Prop
  | .resolve claims _ => SignedIn crypto s.logins s.users claims
  | .fetch claims _ => SignedIn crypto s.logins s.users claims
  | .cacheFetched claims readAt row _ => SignedIn crypto s.logins s.users claims ∧
      row.appUserId = claims.sub ∧ Read s readAt row
  | .admitted claims user admittedAt _ => SignedIn crypto s.logins s.users claims ∧
      admittedAt ≤ s.now ∧ AdmittedBy (hold + cacheTtlSeconds) s claims user admittedAt
  | .verify readAt row _ => ∀ r ∈ row, Read s readAt r
  | .mint readAt row password => Read s readAt row ∧ row.isActive = true ∧
      crypto.verify row.passwordHash password = true
  | .cacheLogin readAt row _ => Read s readAt row
  | _ => True

section Steps

variable {crypto : Crypto T} {hold : ℚ} {s s' : AuthState T} {w w' v : AuthRequest T}

/-- A row that was read was written. -/
theorem Read.mem {readAt : ℚ} {row : AppUser} (h : Read s readAt row) :
    ∃ t, (t, row) ∈ rowsOf s.users row.appUserId := h.current.mem

/-- A login that went through stays one, whoever signs in later and whatever is written. -/
theorem SignedIn.mono {logins logins' : List Login} {users users' : List (ℚ × AppUser)}
    {claims : Claims} (h : SignedIn crypto logins users claims)
    (hlogins : ∀ login ∈ logins, login ∈ logins') (hmem : ∀ u ∈ users, u ∈ users') :
    SignedIn crypto logins' users' claims := by
  obtain ⟨login, hlogin, hclaims, ⟨t, hrow⟩, hrest⟩ := h
  obtain ⟨hrow, hid⟩ := mem_rowsOf.mp hrow
  exact ⟨login, hlogins login hlogin, hclaims, ⟨t, mem_rowsOf.mpr ⟨hmem _ hrow, hid⟩⟩, hrest⟩

/-- A write does not undo a login. -/
theorem Written.signedIn (h : Written s s') {claims : Claims}
    (hsigned : SignedIn crypto s.logins s.users claims) :
    SignedIn crypto s'.logins s'.users claims :=
  hsigned.mono (fun _ hlogin => h.logins ▸ hlogin) h.mem

/-- Nor does it change what was read before. -/
theorem Written.read (h : Written s s') {readAt : ℚ} {row : AppUser} (hr : Read s readAt row) :
    Read s' readAt row :=
  ⟨hr.past.trans h.now, h.currentSince hr.current hr.past⟩

/-- A write of the world keeps the invariant, which is about the log and the cache: the log grows
at its end, and the cache has still what was current then. -/
theorem Written.authInv (h : Written s s') (hI : AuthInv crypto hold s)
    (hU : UsersInv s'.users) : AuthInv crypto hold s' := by
  refine ⟨hU, ?_, fun token htoken => ?_⟩
  · rw [h.cache]
    exact (hI.cache.write h.rows).later h.now
  · obtain ⟨claims, heq, hsigned⟩ := hI.tokens token (h.tokens ▸ htoken)
    exact ⟨claims, heq, h.signedIn hsigned⟩

/-- What holds of a request, holds after a row has been written. -/
theorem Written.requestInv (h : Written s s') (hlag : 0 ≤ hold + cacheTtlSeconds)
    (hw : RequestInv crypto hold s w) : RequestInv crypto hold s' w := by
  cases w with
  | resolve claims logout => exact h.signedIn hw
  | fetch claims logout => exact h.signedIn hw
  | cacheFetched claims readAt row logout =>
    obtain ⟨hsigned, hid, hread⟩ := hw
    exact ⟨h.signedIn hsigned, hid, h.read hread⟩
  | admitted claims user admittedAt logout =>
    obtain ⟨hsigned, hpast, row, hcur, hrow⟩ := hw
    exact ⟨h.signedIn hsigned, hpast.trans h.now, row,
      h.currentSince hcur ((sub_le_self _ hlag).trans hpast), hrow⟩
  | verify readAt row password => exact fun r hr => h.read (hw r hr)
  | mint readAt row password => exact ⟨h.read hw.1, hw.2⟩
  | cacheLogin readAt row token => exact h.read hw
  | _ => trivial

/-- A decision by a row that was current within the lag. -/
theorem judge_inv {claims : Claims} {row : AppUser} {logout : Bool}
    (hsigned : SignedIn crypto s.logins s.users claims)
    (hcur : CurrentSince (rowsOf s.users claims.sub) (s.now - (hold + cacheTtlSeconds)) row) :
    RequestInv crypto hold s (judge s.now claims row logout) := by
  unfold judge
  split
  · trivial
  · next hactive =>
    split
    · trivial
    · next hgen =>
      exact ⟨hsigned, le_rfl, row, hcur, Bool.eq_true_of_not_eq_false hactive,
        not_not.mp hgen, rfl⟩

/-- A login goes through with a row that was found, is active and has the password's hash. -/
theorem verifyCredentials_eq_some {row : Option AppUser} {password : String} {r : AppUser}
    (h : verifyCredentials crypto row password = some r) :
    row = some r ∧ r.isActive = true ∧ crypto.verify r.passwordHash password = true := by
  unfold verifyCredentials at h
  split at h
  · next hverify =>
    obtain ⟨rfl, hactive⟩ := Option.filter_eq_some_iff.mp h
    exact ⟨rfl, hactive, hverify⟩
  · cases h

/-- **A step of a request keeps what holds**, when it is prompt. The step moves no clock and
writes no user row, and it forgets none of the logins; being prompt is what keeps a forged cookie
and a row read too long ago out. -/
theorem stepRequest_inv (hsigns : crypto.Signs) (hhold : 0 ≤ hold) (hI : AuthInv crypto hold s)
    (hw : RequestInv crypto hold s w) (hp : Prompt crypto hold s w ())
    (h : stepRequest crypto s w = some (s', w')) :
    AuthInv crypto hold s' ∧ RequestInv crypto hold s' w' ∧ s'.now = s.now ∧
      s'.users = s.users ∧ ∀ login ∈ s.logins, login ∈ s'.logins := by
  have hlag : 0 ≤ hold + cacheTtlSeconds := add_nonneg hhold (by norm_num [cacheTtlSeconds])
  have hput {readAt : ℚ} {row : AppUser} (hr : Read s readAt row) (hlate : s.now - readAt ≤ hold) :
      (s.cache.put row.appUserId (s.now + cacheTtlSeconds) row).Backed (rowsOf s.users)
        (hold + cacheTtlSeconds) s.now :=
    hI.cache.put hr.past hr.current (by linarith)
  cases w with
  | require cookie logout =>
    obtain ⟨rfl, rfl⟩ := by simpa [stepRequest] using h
    refine ⟨hI, ?_, rfl, rfl, fun _ => id⟩
    split
    · trivial
    · next claims hclaims =>
      obtain ⟨token, htoken, hdecode⟩ := Option.bind_eq_some_iff.mp hclaims
      obtain hgiven | hnone := hp token htoken
      · obtain ⟨claims', rfl, hsigned⟩ := hI.tokens token hgiven
        rw [hsigns] at hdecode
        split at hdecode
        · obtain rfl := Option.some.inj hdecode
          exact hsigned
        · cases hdecode
      · exact absurd (hnone.symm.trans hdecode) (by simp)
  | resolve claims logout =>
    obtain ⟨rfl, rfl⟩ := by simpa [stepRequest] using h
    refine ⟨⟨hI.users, hI.cache.get_snd, hI.tokens⟩, ?_, rfl, rfl, fun _ => id⟩
    split
    · exact hw
    · next row hfound => exact judge_inv hw (hI.cache.get hfound)
  | fetch claims logout =>
    obtain ⟨rfl, rfl⟩ := by simpa [stepRequest] using h
    refine ⟨hI, ?_, rfl, rfl, fun _ => id⟩
    split
    · trivial
    · next row hrow =>
      obtain ⟨t, older, hrows⟩ := rowsOf_of_getUserById hrow
      have hmem : (t, row) ∈ rowsOf s.users claims.sub := hrows ▸ List.mem_cons_self
      have hid := (mem_rowsOf.mp hmem).2
      refine ⟨hw, hid, le_rfl, ?_⟩
      rw [hid, hrows]
      exact CurrentSince.head
  | cacheFetched claims readAt row logout =>
    obtain ⟨rfl, rfl⟩ := by simpa [stepRequest] using h
    obtain ⟨hsigned, hid, hread⟩ := hw
    have hlate : s.now - readAt ≤ hold := hp
    refine ⟨⟨hI.users, hput hread hlate, hI.tokens⟩, ?_, rfl, rfl, fun _ => id⟩
    refine judge_inv (s := { s with cache := _ }) hsigned ?_
    rw [← hid]
    refine hread.current.mono ?_
    show s.now - (hold + cacheTtlSeconds) ≤ readAt
    have hpos : 0 ≤ cacheTtlSeconds := by norm_num [cacheTtlSeconds]
    linarith
  | admitted claims user admittedAt logout =>
    cases logout with
    | true =>
      obtain ⟨rfl, rfl⟩ := by simpa [stepRequest] using h
      exact ⟨⟨hI.users, hI.cache.drop, hI.tokens⟩, hw, rfl, rfl, fun _ => id⟩
    | false => cases h
  | rejected => cases h
  | login username password =>
    obtain ⟨rfl, rfl⟩ := by simpa [stepRequest] using h
    refine ⟨hI, fun r hr => ⟨le_rfl, ?_⟩, rfl, rfl, fun _ => id⟩
    obtain ⟨t, older, hrows⟩ := hI.users.rowsOf_eq hr
    rw [hrows]
    exact CurrentSince.head
  | verify readAt row password =>
    obtain ⟨rfl, rfl⟩ := by simpa [stepRequest] using h
    refine ⟨hI, ?_, rfl, rfl, fun _ => id⟩
    split
    · trivial
    · next r hr =>
      obtain ⟨hrow, hactive, hverify⟩ := verifyCredentials_eq_some hr
      exact ⟨hw r hrow, hactive, hverify⟩
  | mint readAt row password =>
    obtain ⟨rfl, rfl⟩ := by simpa [stepRequest] using h
    obtain ⟨hread, hrow⟩ := hw
    refine ⟨⟨hI.users, hI.cache, fun token htoken => ?_⟩, ⟨hread.past, hread.current⟩, rfl, rfl,
      fun _ => List.mem_cons_of_mem _⟩
    obtain rfl | htoken := List.mem_cons.mp htoken
    · exact ⟨_, rfl, ⟨s.now, row, password⟩, List.mem_cons_self, rfl, hread.mem, hrow⟩
    · obtain ⟨claims, hclaims, hsigned⟩ := hI.tokens token htoken
      exact ⟨claims, hclaims, hsigned.mono (fun _ => List.mem_cons_of_mem _) fun _ => id⟩
  | cacheLogin readAt row token =>
    obtain ⟨rfl, rfl⟩ := by simpa [stepRequest] using h
    exact ⟨⟨hI.users, hput hw hp, hI.tokens⟩, trivial, rfl, rfl, fun _ => id⟩
  | loggedIn row token => cases h

/-- Another request is none the worse for it. -/
theorem RequestInv.other (hv : RequestInv crypto hold s v) (hnow : s'.now = s.now)
    (husers : s'.users = s.users) (hlogins : ∀ login ∈ s.logins, login ∈ s'.logins) :
    RequestInv crypto hold s' v := by
  obtain ⟨now, users, cache, tokens, logins⟩ := s
  obtain ⟨now', users', cache', tokens', logins'⟩ := s'
  obtain rfl : now' = now := hnow
  obtain rfl : users' = users := husers
  have hsigned {claims : Claims} (h : SignedIn crypto logins users' claims) :
      SignedIn crypto logins' users' claims := h.mono hlogins fun _ => id
  cases v with
  | resolve claims logout => exact hsigned hv
  | fetch claims logout => exact hsigned hv
  | cacheFetched claims readAt row logout =>
    exact ⟨hsigned hv.1, hv.2.1, hv.2.2.1, hv.2.2.2⟩
  | admitted claims user admittedAt logout => exact ⟨hsigned hv.1, hv.2⟩
  | verify readAt row password => exact fun r hr => ⟨(hv r hr).1, (hv r hr).2⟩
  | mint readAt row password => exact ⟨⟨hv.1.1, hv.1.2⟩, hv.2⟩
  | cacheLogin readAt row token => exact ⟨hv.1, hv.2⟩
  | _ => trivial

end Steps

/-! ## Runs -/

/-- A request is decided: it is let in, or turned away. -/
def Decides (w w' : AuthRequest T) (claims : Claims) : Prop :=
  (∃ logout, w = .resolve claims logout ∧ ∀ logout', w' ≠ .fetch claims logout') ∨
    ∃ readAt row logout, w = .cacheFetched claims readAt row logout

/-- A request is let in by a row exactly when that is active and has the generation of the token.
-/
theorem judge_admitted_iff {now : ℚ} {claims : Claims} {row : AppUser} {logout : Bool} :
    (∃ user admittedAt logout', (judge now claims row logout : AuthRequest T) =
        .admitted claims user admittedAt logout') ↔
      row.isActive = true ∧ row.sessionGen = claims.ver := by
  unfold judge
  split
  · next hactive =>
    refine iff_of_false (fun ⟨_, _, _, h⟩ => (by cases h)) fun h => ?_
    exact Bool.false_ne_true (hactive.symm.trans h.1)
  · next hactive =>
    split
    · next hgen => exact iff_of_false (fun ⟨_, _, _, h⟩ => (by cases h)) fun h => hgen h.2
    · next hgen =>
      exact iff_of_true ⟨_, _, _, rfl⟩ ⟨Bool.eq_true_of_not_eq_false hactive, not_not.mp hgen⟩

section Runs

variable {crypto : Crypto T} {hold : ℚ} {s : PoolState (AuthState T) (AuthRequest T)}

/-- What holds in every prompt run. -/
theorem authPool_invariant (hsigns : crypto.Signs) (hhold : 0 ≤ hold)
    (hs : (authPool crypto).machine.Reach
      (Pool.Guard (Prompt crypto hold) (fun _ _ _ _ => True)) s) :
    AuthInv crypto hold s.shared ∧ ∀ w ∈ s.workers, RequestInv crypto hold s.shared w := by
  have hlag : 0 ≤ hold + cacheTtlSeconds := add_nonneg hhold (by norm_num [cacheTtlSeconds])
  refine Pool.invariant (I := AuthInv crypto hold) (L := RequestInv crypto hold) hs
    (fun s h => ?_) (fun s ws b w _ h => ?_) (fun s e s' hI h => ?_)
    (fun s w a s' w' hI hw hp h => ?_) (fun s w a s' w' v hI hw hv hp _ h => ?_)
  · obtain ⟨husers, hcache, htokens, -⟩ := h
    refine ⟨?_, ?_, ?_⟩
    · rw [husers]
      exact ⟨fun u hu => absurd hu List.not_mem_nil, fun _ => List.Pairwise.nil⟩
    · rw [hcache]
      exact TtlCache.Backed.empty
    · rw [htokens]
      exact fun token htoken => absurd htoken List.not_mem_nil
  · obtain rfl := Option.some.inj h
    cases b with
    | request cookie logout => trivial
    | login username password => trivial
  · obtain ⟨hU, hwritten⟩ := stepAuthWorld_written hI.users h
    exact ⟨hwritten.authInv hI hU, fun w hw => hwritten.requestInv hlag hw⟩
  · obtain ⟨hI', hw', -⟩ := stepRequest_inv hsigns hhold hI hw hp h
    exact ⟨hI', hw'⟩
  · obtain ⟨-, -, hnow, husers, hlogins⟩ := stepRequest_inv hsigns hhold hI hw hp h
    exact hv.other hnow husers hlogins

/-- A request is decided by a row that was current within the lag. -/
theorem judged_by (hI : AuthInv crypto hold s.shared) {w w' : AuthRequest T} {claims : Claims}
    {s' : AuthState T} (hw : RequestInv crypto hold s.shared w)
    (hp : Prompt crypto hold s.shared w ()) (h : stepRequest crypto s.shared w = some (s', w'))
    (hd : Decides w w' claims) : ∃ row logout, w' = judge s.shared.now claims row logout ∧
      CurrentSince (rowsOf s.shared.users claims.sub)
        (s.shared.now - (hold + cacheTtlSeconds)) row := by
  obtain ⟨logout, rfl, hfetch⟩ | ⟨readAt, row, logout, rfl⟩ := hd
  · obtain ⟨-, rfl⟩ := by simpa [stepRequest] using h
    cases hfound : (s.shared.cache.get s.shared.now claims.sub).1 with
    | none =>
      rw [hfound] at hfetch
      exact absurd rfl (hfetch logout)
    | some row => exact ⟨row, logout, rfl, hI.cache.get hfound⟩
  · obtain ⟨-, rfl⟩ := by simpa [stepRequest] using h
    obtain ⟨-, hid, hread⟩ := hw
    have hlate : s.shared.now - readAt ≤ hold := hp
    have hpos : 0 ≤ cacheTtlSeconds := by norm_num [cacheTtlSeconds]
    exact ⟨row, logout, rfl, hid ▸ hread.current.mono (by linarith)⟩

/-- **A session ends with its generation.** In every run in which no token is forged and what
is read is put into the cache within `hold`, in whatever order the steps are taken, a request
that is let in carries the generation of a row of its user that was active and was the
current one within `hold` and five seconds, and its token is that of a login that went through
by this very row, with its password; and a generation that was raised before that lets nobody
in. A request whose user has not
been written since is decided by the row that there is. -/
theorem admitted_recently (hsigns : crypto.Signs) (hhold : 0 ≤ hold)
    (hs : (authPool crypto).machine.Reach
      (Pool.Guard (Prompt crypto hold) (fun _ _ _ _ => True)) s) :
    (∀ claims user admittedAt logout, .admitted claims user admittedAt logout ∈ s.workers →
      (∃ row, CurrentSince (rowsOf s.shared.users claims.sub)
          (admittedAt - (hold + cacheTtlSeconds)) row ∧
        row.isActive = true ∧ row.sessionGen = claims.ver ∧
        user = ⟨claims.sub, row.username, row.sessionGen⟩ ∧
        ∃ login ∈ s.shared.logins, login.row = row ∧ claims = login.claims ∧
          crypto.verify row.passwordHash login.password = true) ∧
      ∀ u ∈ rowsOf s.shared.users claims.sub, claims.ver < u.2.sessionGen →
        admittedAt ≤ u.1 + (hold + cacheTtlSeconds)) ∧
      ∀ w ∈ s.workers, ∀ s' w' claims, Prompt crypto hold s.shared w () →
        stepRequest crypto s.shared w = some (s', w') → Decides w w' claims →
        ∀ t row older, rowsOf s.shared.users claims.sub = (t, row) :: older →
          t < s.shared.now - (hold + cacheTtlSeconds) →
          ((∃ user admittedAt logout, w' = .admitted claims user admittedAt logout) ↔
            row.isActive = true ∧ row.sessionGen = claims.ver) := by
  obtain ⟨hI, hL⟩ := authPool_invariant hsigns hhold hs
  refine ⟨fun claims user admittedAt logout hw => ?_,
    fun w hw s' w' claims hp h hd t row older hrows ht => ?_⟩
  · obtain ⟨⟨login, hlogin, hclaims, ⟨u, hu⟩, -, hverify⟩, -, row, hcur, hactive, hver, huser⟩ :=
      hL _ hw
    obtain ⟨t, hmem⟩ := hcur.mem
    have hsub : claims.sub = login.row.appUserId := congrArg Claims.sub hclaims
    have hgen : claims.ver = login.row.sessionGen := congrArg Claims.ver hclaims
    -- the row that somebody signed in by has the same generation, and so it is the same
    have hsame : login.row = row := congrArg Prod.snd
      (hI.users.eq_of_sessionGen hu (hsub ▸ hmem) (hgen.symm.trans hver.symm))
    refine ⟨⟨row, hcur, hactive, hver, huser, login, hlogin, hsame, hclaims, hsame ▸ hverify⟩,
      fun v hv hlt => ?_⟩
    have hrank := (hI.users.rising claims.sub).imp
      (S := fun later earlier => earlier.2.sessionGen ≤ later.2.sessionGen) fun h => h.le
    have hlate := hcur.le_of_rank_lt hrank hv (hver ▸ hlt)
    linarith
  · obtain ⟨row', logout, rfl, hcur⟩ := judged_by hI (hL w hw) hp h hd
    rw [hrows] at hcur
    rw [← hcur.eq_of_settled ht]
    exact judge_admitted_iff

end Runs

/-! ## A run, and one in which what was read is put into the cache late -/

instance [DecidableEq T] (crypto : Crypto T) (hold : ℚ) (s : AuthState T) (w : AuthRequest T)
    (a : Unit) : Decidable (Prompt crypto hold s w a) := by
  unfold Prompt
  split <;> infer_instance

/-- Tokens that are what they say, and passwords that are not hashed. -/
def plainCrypto : Crypto Claims where
  encode := id
  decode now claims :=
    if claims.iss = jwtIssuer ∧ claims.iat ≤ now ∧ now < claims.exp then some claims else none
  verify hash password := hash = password
  dummyHash := ""

/-- In the example a token says what it was made of. -/
theorem plainCrypto_signs : plainCrypto.Signs := fun _ _ => rfl

/-- A user is added and signs in, and shows the token. -/
def signsIn : List (PoolAct AuthWorld (AuthStart Claims) Unit) :=
  [.env (.insUser 1 "ann" "secret"), .spawn (.login "ann" "secret"), .work 0 (), .work 0 (),
    .work 0 (), .work 0 (), .env (.tick (5 / 2)), .spawn (.request (createToken 0 1 1) false),
    .work 1 (), .work 1 ()]

/-- Somebody signs in and is let in within the bound, by the row of that login. -/
theorem ann_admitted : ∃ s, (authPool plainCrypto).machine.Reach
      (Pool.Guard (Prompt plainCrypto 1) (fun _ _ _ _ => True)) s ∧
    .admitted (createToken 0 1 1) ⟨1, "ann", 1⟩ (5 / 2) false ∈ s.workers ∧
    ∃ row, CurrentSince (rowsOf s.shared.users 1) (5 / 2 - (1 + cacheTtlSeconds)) row ∧
      row.isActive = true ∧ ∃ login ∈ s.shared.logins, login.row = row := by
  obtain ⟨s, hs, hP⟩ := Machine.Reach.exists_of_runs (M := (authPool plainCrypto).machine)
    (G := Pool.Guard (Prompt plainCrypto 1) (fun _ _ _ _ => True))
    (s := ⟨⟨0, [], .empty, [], []⟩, []⟩) ⟨⟨rfl, rfl, rfl, rfl⟩, rfl⟩ signsIn
    (P := fun s => .admitted (createToken 0 1 1) ⟨1, "ann", 1⟩ (5 / 2) false ∈ s.workers)
    (by decide +kernel)
  have hmem := of_decide_eq_true hP
  obtain ⟨⟨row, hcur, hactive, -, -, login, hlogin, hrow, -⟩, -⟩ :=
    (admitted_recently plainCrypto_signs zero_le_one hs).1 _ _ _ _ hmem
  exact ⟨s, hs, hmem, row, hcur, hactive, login, hlogin, hrow⟩

/-- The session is ended while a request holds the row that it has read, which it puts into
the cache a minute later. -/
def heldRow : List (PoolAct AuthWorld (AuthStart Claims) Unit) :=
  [.env (.insUser 1 "ann" "secret"), .spawn (.login "ann" "secret"), .work 0 (), .work 0 (),
    .work 0 (), .work 0 (), .env (.tick 6), .spawn (.request (createToken 0 1 1) false),
    .work 1 (), .work 1 (), .work 1 (), .env (.bumpToken "ann"), .env (.tick 60), .work 1 (),
    .env (.tick 5), .spawn (.request (createToken 0 1 1) false), .work 2 (), .work 2 ()]

/-- **A session can outlive its generation by more than five seconds.** The request that reads the
row is held up for a minute before it puts it into the cache, so that the next one finds it there
at 71 seconds, though the generation was raised at 6. -/
theorem admitted_late : ∃ s, (authPool plainCrypto).machine.Reach (fun _ _ => True) s ∧
    .admitted (createToken 0 1 1) ⟨1, "ann", 1⟩ 71 false ∈ s.workers ∧
    (s.shared.users.map (fun u => (u.1, u.2.sessionGen)) = [(6, 2), (0, 1)]) := by
  obtain ⟨s, hs, hP⟩ := Machine.Reach.exists_of_runs (M := (authPool plainCrypto).machine)
    (G := fun _ _ => True) (s := ⟨⟨0, [], .empty, [], []⟩, []⟩) ⟨⟨rfl, rfl, rfl, rfl⟩, rfl⟩ heldRow
    (P := fun s => .admitted (createToken 0 1 1) ⟨1, "ann", 1⟩ 71 false ∈ s.workers ∧
      s.shared.users.map (fun u => (u.1, u.2.sessionGen)) = [(6, 2), (0, 1)])
    (by decide +kernel)
  exact ⟨s, hs, of_decide_eq_true hP⟩

end Auth
