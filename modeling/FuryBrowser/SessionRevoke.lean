import FuryBrowser.HexExact
import FuryBrowser.HostMask
import FuryBrowser.TeamRequests
import Mathlib.Data.List.Sort

/-!
# A session ended by its prefix

Sessions are listed by the first bytes of the hash of their token, and one is ended by naming
these. Several may begin alike: the one that ends is the first of the rows that match, in whatever
order they come, and whose it is is asked afterwards.
-/

namespace FuryBrowser.SessionRevoke

open AgentDisk TextBytes RowTable
open PastedText (isHexDigit)
open HostMask (hexByte)
open OrgKeys (Role)
open TeamRequests (Caller)

section Tables

/-- A row of `sessions`. -/
structure Session where
  tokenHash : Vector UInt8 32
  /-- `user_id`. -/
  user : ℕ
  machineName : String
  ip : Option String
  userAgent : Option String
  createdAt : ℤ
  lastSeenAt : ℤ
  expiresAt : ℤ
  deriving DecidableEq, Repr

/-- The tables. -/
structure Db where
  sessions : List Session
  /-- `users`: each with an address. -/
  users : List (ℕ × String)
  /-- `org_members`: of an organisation, a user. -/
  members : List (ℕ × ℕ)

/-- `SessionEntry`. -/
structure SessionEntry where
  id : Text
  user : ℕ
  email : String
  machineName : String
  ip : Option String
  userAgent : Option String
  createdAt : ℤ
  lastSeenAt : ℤ
  /-- It is the one that asks. -/
  current : Bool

/-- Why a request is refused. -/
inductive Refusal where
  | badRequest
  | notFound
  /-- `Denied` of `ManageAccess`. -/
  | denied
  deriving DecidableEq, Repr

variable (db : Db) (caller : Caller)

/-- `hex_prefix`. -/
def hexPrefix (hash : Vector UInt8 32) : Text := (hash.toList.take 4).flatMap hexByte

/-- A session of a member of an organisation. -/
def Db.inOrg (org : ℕ) (s : Session) : Bool := (org, s.user) ∈ db.members

/-- The entry of a session. -/
def entryOf (mine : Option (Vector UInt8 32)) (email : String) (s : Session) : SessionEntry where
  id := hexPrefix s.tokenHash
  user := s.user
  email := email
  machineName := s.machineName
  ip := s.ip
  userAgent := s.userAgent
  createdAt := s.createdAt
  lastSeenAt := s.lastSeenAt
  current := mine = some s.tokenHash

/-- The sessions of the list. -/
def listed (all : Bool) (now : ℤ) : List Session :=
  (db.sessions.filter fun s =>
    now < s.expiresAt && db.inOrg caller.org s && (all || s.user = caller.user)).insertionSort
      fun s s' => s'.lastSeenAt ≤ s.lastSeenAt

/-- `list_sessions`. -/
def listSessions (all : Bool) (mine : Option (Vector UInt8 32)) (now : ℤ) :
    Except Refusal (List SessionEntry) :=
  if all && !caller.administers then .error .denied
  else .ok ((listed db caller all now).flatMap fun s =>
    (db.users.filter fun u => u.1 = s.user).map fun u => entryOf mine u.2 s)

/-- The rows that match a prefix. -/
def matching (id : Text) : List Session :=
  db.sessions.filter fun s => db.inOrg caller.org s && hexPrefix s.tokenHash = id

/-- `revoke_session`, with the rows that match in the order they come. -/
def revokeSession (id : Text) (rows : List Session) : Except Refusal Db :=
  if id.length ≠ 8 || !id.all isHexDigit then .error .badRequest
  else match rows with
    | [] => .error .notFound
    | s :: _ =>
      if s.user ≠ caller.user && !caller.administers then .error .denied
      else .ok { db with
        sessions := deleteWhere (fun r => r.tokenHash = s.tokenHash) db.sessions }

/-- A session of the caller's own ends that had not expired, and nobody else's. -/
def EndsOwn (now : ℤ) (result : Except Refusal Db) : Prop :=
  ∃ db', result = .ok db' ∧
    (∃ s ∈ db.sessions, s.user = caller.user ∧ now < s.expiresAt ∧ s ∉ db'.sessions) ∧
    ∀ s ∈ db.sessions, s.user ≠ caller.user → s ∈ db'.sessions

end Tables

section Prefixes

variable {db : Db} {caller : Caller} {id : Text} {now : ℤ} {all : Bool}
  {mine : Option (Vector UInt8 32)} {s : Session} {rows : List Session}

theorem isHexDigit_hexByte (b : UInt8) : ∀ c ∈ hexByte b, isHexDigit c = true := by
  have hall : ∀ n < 16, isHexDigit (Nat.digitChar n) = true := by decide
  have hb := b.toNat_lt
  intro c hc
  simp only [hexByte, List.mem_cons, List.not_mem_nil, or_false] at hc
  rcases hc with rfl | rfl
  · exact hall _ (by omega)
  · exact hall _ (by omega)

theorem hexPrefix_fits (hash : Vector UInt8 32) :
    (hexPrefix hash).length = 8 ∧ (hexPrefix hash).all isHexDigit = true := by
  constructor
  · have hlen : (hash.toList.take 4).length = 4 := by simp
    obtain ⟨a, b, c, d, heq⟩ : ∃ a b c d, hash.toList.take 4 = [a, b, c, d] :=
      List.length_eq_four.mp hlen
    rw [hexPrefix, heq]
    rfl
  · refine List.all_eq_true.mpr fun c hc => ?_
    obtain ⟨b, -, hb⟩ := List.mem_flatMap.mp hc
    exact isHexDigit_hexByte b c hb

@[simp] theorem mem_matching : s ∈ matching db caller id ↔
    s ∈ db.sessions ∧ db.inOrg caller.org s = true ∧ hexPrefix s.tokenHash = id := by
  simp [matching]

/-- What the list shows is a session that has not expired. -/
theorem shown_session {entries : List SessionEntry} {entry : SessionEntry}
    (h : listSessions db caller all mine now = .ok entries) (hin : entry ∈ entries) :
    ∃ s ∈ matching db caller entry.id, s.user = entry.user ∧ now < s.expiresAt := by
  unfold listSessions at h
  split at h
  · cases h
  · cases h
    obtain ⟨s, hs, hentry⟩ := List.mem_flatMap.mp hin
    obtain ⟨u, -, rfl⟩ := List.mem_map.mp hentry
    obtain ⟨hin, hkept⟩ := List.mem_filter.mp ((List.mem_insertionSort _).mp hs)
    simp only [Bool.and_eq_true, decide_eq_true_eq] at hkept
    exact ⟨s, mem_matching.mpr ⟨hin, hkept.1.2, rfl⟩, rfl, hkept.1.1⟩

end Prefixes

section Revoking

variable {db : Db} {caller : Caller} {id : Text} {now : ℤ} {all : Bool}
  {mine : Option (Vector UInt8 32)} {s : Session} {rows : List Session}

/-- The first row is the one that ends, if it is the caller's to end. -/
theorem revokeSession_cons (hfits : id.length = 8 ∧ id.all isHexDigit = true) :
    revokeSession db caller id (s :: rows) =
      if s.user ≠ caller.user && !caller.administers then .error .denied
      else .ok { db with
        sessions := deleteWhere (fun r => r.tokenHash = s.tokenHash) db.sessions } := by
  rw [revokeSession, if_neg (by simp [hfits.1, hfits.2])]

/-- Only the row itself is deleted by its hash. -/
theorem mem_deleted_iff (hkeys : KeyUnique Session.tokenHash db.sessions) (hs : s ∈ db.sessions)
    {r : Session} (hr : r ∈ db.sessions) :
    r ∈ deleteWhere (fun r => r.tokenHash = s.tokenHash) db.sessions ↔ r ≠ s := by
  rw [mem_deleteWhere, decide_eq_false_iff_not]
  constructor
  · rintro ⟨-, hne⟩ rfl
    exact hne rfl
  · exact fun hne => ⟨hr, fun heq => hne (hkeys.eq hr hs heq)⟩

/-- With this row before the others the right session ends exactly when the row is one of the
caller's own that has not expired. -/
theorem endsOwn_cons_iff (hfits : id.length = 8 ∧ id.all isHexDigit = true)
    (hkeys : KeyUnique Session.tokenHash db.sessions) (hs : s ∈ db.sessions) :
    EndsOwn db caller now (revokeSession db caller id (s :: rows)) ↔
      s.user = caller.user ∧ now < s.expiresAt := by
  rw [revokeSession_cons hfits]
  constructor
  · rintro ⟨db', hok, ⟨r, hr, hown, hlive, hgone⟩, hothers⟩
    split at hok
    · cases hok
    · cases hok
      obtain rfl : r = s := by
        by_contra hne
        exact hgone ((mem_deleted_iff hkeys hs hr).mpr hne)
      exact ⟨hown, hlive⟩
  · rintro ⟨hown, hlive⟩
    rw [if_neg (by simp [hown])]
    refine ⟨_, rfl, ⟨s, hs, hown, hlive, ?_⟩, fun r hr hother => ?_⟩
    · exact fun hin => (mem_deleted_iff hkeys hs hs).mp hin rfl
    · refine (mem_deleted_iff hkeys hs hr).mpr ?_
      rintro rfl
      exact hother hown

/-- In whatever order the rows come, a caller who names a session as the list shows it ends one of
their own and nobody else's, exactly when whatever begins like it in the organisation is theirs
and has not expired. -/
theorem revoked_own_iff (hkeys : KeyUnique Session.tokenHash db.sessions)
    {entries : List SessionEntry} {entry : SessionEntry}
    (hlist : listSessions db caller all mine now = .ok entries) (hin : entry ∈ entries) :
    (∀ rows : List Session, rows.Perm (matching db caller entry.id) →
        EndsOwn db caller now (revokeSession db caller entry.id rows)) ↔
      ∀ s ∈ db.sessions, db.inOrg caller.org s = true → hexPrefix s.tokenHash = entry.id →
        s.user = caller.user ∧ now < s.expiresAt := by
  obtain ⟨shown, hshown, -, -⟩ := shown_session hlist hin
  have hfits : entry.id.length = 8 ∧ entry.id.all isHexDigit = true := by
    rw [← (mem_matching.mp hshown).2.2]
    exact hexPrefix_fits _
  constructor
  · intro h s hs horg hprefix
    have hmatch : s ∈ matching db caller entry.id := mem_matching.mpr ⟨hs, horg, hprefix⟩
    have hfirst := h _ (List.perm_cons_erase hmatch).symm
    exact (endsOwn_cons_iff hfits hkeys hs).mp hfirst
  · intro h rows hperm
    cases rows with
    | nil =>
      rw [List.nil_perm.mp hperm] at hshown
      cases hshown
    | cons s rest =>
      obtain ⟨hs, horg, hprefix⟩ := mem_matching.mp (hperm.mem_iff.mp List.mem_cons_self)
      exact (endsOwn_cons_iff hfits hkeys hs).mpr (h s hs horg hprefix)

/-- A hash that begins with four bytes of ten, and ends with another. -/
def hashOf (last : UInt8) : Vector UInt8 32 := (Vector.replicate 31 10).push last

/-- A session of somebody. -/
def sessionOf (last : UInt8) (user : ℕ) : Session where
  tokenHash := hashOf last
  user := user
  machineName := "laptop"
  ip := none
  userAgent := none
  createdAt := 0
  lastSeenAt := 5
  expiresAt := 100

/-- Two members of an organisation, each with a session, and the hashes begin alike. -/
def alike : Db where
  sessions := [sessionOf 1 7, sessionOf 2 8]
  users := [(7, "a@example.com"), (8, "b@example.com")]
  members := [(1, 7), (1, 8)]

/-- One of them alone. -/
def alone : Db := { alike with sessions := [sessionOf 2 8] }

/-- What the list shows the second of them. -/
def shownEntry : SessionEntry := entryOf none "b@example.com" (sessionOf 2 8)

/-- A session that nothing else begins like. -/
theorem revoked_own_iff_alone :
    EndsOwn alone ⟨8, 1, .member⟩ 50
      (revokeSession alone ⟨8, 1, .member⟩ shownEntry.id [sessionOf 2 8]) := by
  have hkeys : KeyUnique Session.tokenHash alone.sessions := List.nodup_singleton _
  have hlist : listSessions alone ⟨8, 1, .member⟩ false none 50 = .ok [shownEntry] := rfl
  refine (revoked_own_iff hkeys hlist (List.mem_singleton_self _)).mpr ?_ _ (.refl _)
  intro s hs _ _
  rw [List.mem_singleton.mp hs]
  exact ⟨rfl, by decide⟩

/-- A member names a session of theirs, and is refused because of another's. -/
theorem revoke_refused_for_another :
    ¬ ∀ (db : Db) (caller : Caller) (now : ℤ) (entries : List SessionEntry)
      (entry : SessionEntry), KeyUnique Session.tokenHash db.sessions →
      listSessions db caller false none now = .ok entries → entry ∈ entries →
      entry.user = caller.user →
      ∀ rows : List Session, rows.Perm (matching db caller entry.id) →
        EndsOwn db caller now (revokeSession db caller entry.id rows) := by
  intro h
  have hends := h alike ⟨8, 1, .member⟩ 50 [shownEntry] shownEntry
    (by unfold KeyUnique; decide) rfl (List.mem_singleton_self _) rfl
    [sessionOf 1 7, sessionOf 2 8] (.refl _)
  obtain ⟨db', hok, -⟩ := hends
  have hrefused : revokeSession alike ⟨8, 1, .member⟩ shownEntry.id
      [sessionOf 1 7, sessionOf 2 8] = .error .denied := rfl
  rw [hrefused] at hok
  cases hok

end Revoking

end FuryBrowser.SessionRevoke
