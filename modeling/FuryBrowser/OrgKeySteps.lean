import FuryBrowser.OrgKeys

/-!
# What one request does to members and rotations

Few requests touch a member's row, and few touch the rotations in flight. The
lemmas here say which and how, once for all requests; the invariants about
members' keys are read off them. That rotations have ids of their own, and an
organisation one at a time, holds in every run.
-/

namespace FuryBrowser.OrgKeys

open GuardedRuns RowTable

variable {w w' : World} {a : Label}

/-- A member's row after a request: as it was, or the row of somebody who signs
up or enrols, or of somebody who is handed the key, or as a rotation leaves it. -/
inductive MemberRow (w w' : World) (user : ℕ) : Label → Row → Prop where
  /-- Nothing happened to it. -/
  | same {a : Label} {r : Row} (hr : r ∈ w.rows) (ha : ∀ id, a ≠ .rotateCommits id) :
    MemberRow w w' user a r
  /-- The owner of a new organisation. -/
  | signup {org : ℕ} {wrappedOrk : Sealed} (hseat : ⟨user, org, .owner, true, false⟩ ∈ w'.seats) :
    MemberRow w w' user (.signup user org wrappedOrk)
      ⟨.member user, org, some ⟨wrappedOrk, 1⟩, some 1, false⟩
  /-- Somebody who joins an organisation. -/
  | joins {invitation newOrg org : ℕ} {inv : Invitation} {wrappedOrk : Option Key}
    (hinv : lookup Invitation.id w.invitations invitation = some inv) (horg : inv.org = some org)
    (hseat : ⟨user, org, inv.role, false, false⟩ ∈ w'.seats) :
    MemberRow w w' user (.enroll invitation user newOrg wrappedOrk)
      ⟨.member user, org, wrappedOrk, wrappedOrk.map fun _ => 1, false⟩
  /-- Somebody an organisation is created for. -/
  | founds {invitation newOrg : ℕ} {inv : Invitation} {wrappedOrk : Option Key}
    (hinv : lookup Invitation.id w.invitations invitation = some inv) (horg : inv.org = none)
    (hseat : ⟨user, newOrg, inv.role, inv.role = .owner, false⟩ ∈ w'.seats) :
    MemberRow w w' user (.enroll invitation user newOrg wrappedOrk)
      ⟨.member user, newOrg, wrappedOrk.map fun k => ⟨k.blob, 1⟩, wrappedOrk.map fun _ => 1, false⟩
  /-- Somebody who is handed the key. -/
  | handed {id : ℕ} {h : HandOver} {old : Row}
    (hh : lookup HandOver.id w.handOvers id = some h) (hold : old ∈ w.rows)
    (href : old.ref = .member h.user) (horg : old.org = h.org)
    (hseats : ∀ s ∈ w.seats, s.user = h.user → s.org = h.org →
      { s with admitted := true } ∈ w'.seats) :
    MemberRow w w' user (.handOverWrites id)
      { old with key := some h.key, label := some h.generation }
  /-- Somebody whose organisation is rotated, and who is not removed. -/
  | rotated {id : ℕ} {rot : Rotation} {old : Row}
    (hrot : lookup Rotation.id w.rotations id = some rot) (hold : old ∈ w.rows)
    (hstays : old.org = rot.org → rot.removes old.ref = false) :
    MemberRow w w' user (.rotateCommits id) (rot.applied old)

/-- Rows after an insert that is not a member's. -/
theorem memberRow_of_insert {ref : Ref} {org user : ℕ} {key : Option Key} {label : Option ℕ}
    {r : Row} (hr : r ∈ (w.insert ref org key label).rows) (href : r.ref = .member user)
    (hkind : ref.kind ≠ .members) (ha : ∀ id, a ≠ .rotateCommits id) :
    MemberRow w w' user a r := by
  rcases List.mem_cons.mp hr with rfl | hr
  · cases href
    exact absurd rfl hkind
  · exact .same hr ha

/-- Rows after a key is put into one that is not a member's. -/
theorem memberRow_of_setKey {ref : Ref} {user : ℕ} {key : Key} {r : Row}
    (hr : r ∈ (w.setKey ref key).rows) (href : r.ref = .member user)
    (hkind : ref.kind ≠ .members) (ha : ∀ id, a ≠ .rotateCommits id) :
    MemberRow w w' user a r := by
  rcases updateWhere_cases hr with ⟨hr, _⟩ | ⟨old, _, hp, rfl⟩
  · exact .same hr ha
  · have hold : old.ref = ref := by simpa using hp
    rw [← hold] at hkind
    rw [show old.ref = .member user from href] at hkind
    exact absurd rfl hkind

@[simp] theorem applied_ref (rot : Rotation) (r : Row) : (rot.applied r).ref = r.ref := by
  unfold Rotation.applied
  split <;> rfl

@[simp] theorem applied_org (rot : Rotation) (r : Row) : (rot.applied r).org = r.org := by
  unfold Rotation.applied
  split <;> rfl

/-- A row a rotation wrote has its key, and the others are as they were. -/
theorem applied_cases (rot : Rotation) (r : Row) :
    (∃ s ∈ rot.writes, s.1 = r.ref ∧ r.org = rot.org ∧
      (rot.applied r).key = some ⟨s.2, rot.req.generation + 1⟩ ∧
      (r.ref.kind = .members → (rot.applied r).label = some (rot.req.generation + 1))) ∨
    (rot.applied r = r ∧ (r.org = rot.org → ¬ ∃ s ∈ rot.writes, s.1 = r.ref)) := by
  unfold Rotation.applied
  split
  · next hnone =>
    refine .inr ⟨rfl, fun horg => ?_⟩
    rintro ⟨s, hs, href⟩
    have hnot := List.find?_eq_none.mp hnone s (List.mem_reverse.mpr hs)
    simp [href, horg] at hnot
  · next s hsome =>
    have hmem := List.mem_reverse.mp (List.mem_of_find?_eq_some hsome)
    have hmatch := List.find?_some hsome
    simp only [Bool.and_eq_true, decide_eq_true_eq] at hmatch
    exact .inl ⟨s, hmem, hmatch.1, hmatch.2, rfl, fun hkind => if_pos hkind⟩

theorem step_members (hs : step w a = some w') {user : ℕ} {r : Row} (hr : r ∈ w'.rows)
    (href : r.ref = .member user) : MemberRow w w' user a r := by
  cases a with
  | signup newUser org wrappedOrk =>
    simp only [step, signup, Option.ite_none_left_eq_some, Option.some.injEq] at hs
    obtain ⟨_, rfl⟩ := hs
    rcases List.mem_cons.mp hr with rfl | hr
    · cases href
      exact .signup List.mem_cons_self
    · exact .same hr nofun
  | invite caller role =>
    obtain ⟨s, _, hs⟩ := Option.bind_eq_some_iff.mp hs
    simp only [Option.ite_none_left_eq_some, Option.some.injEq] at hs
    obtain ⟨_, rfl⟩ := hs
    exact .same hr nofun
  | cliInvite org role =>
    simp only [step, cliInvite, Option.ite_none_left_eq_some, Option.some.injEq] at hs
    obtain ⟨_, rfl⟩ := hs
    exact .same hr nofun
  | enroll invitation newUser newOrg wrappedOrk =>
    obtain ⟨inv, hinv, hs⟩ := Option.bind_eq_some_iff.mp hs
    simp only [Option.ite_none_left_eq_some] at hs
    obtain ⟨_, hs⟩ := hs
    cases horg : inv.org with
    | some org =>
      simp only [horg, Option.ite_none_left_eq_some, Option.some.injEq] at hs
      obtain ⟨_, rfl⟩ := hs
      rcases List.mem_cons.mp hr with rfl | hr
      · cases href
        exact .joins hinv horg List.mem_cons_self
      · exact .same hr nofun
    | none =>
      simp only [horg, Option.ite_none_left_eq_some, Option.some.injEq] at hs
      obtain ⟨_, rfl⟩ := hs
      rcases List.mem_cons.mp hr with rfl | hr
      · cases href
        have hlabel : ((wrappedOrk.map fun k => (⟨k.blob, 1⟩ : Key)).map fun _ => 1) =
            wrappedOrk.map fun _ => 1 := by
          cases wrappedOrk <;> rfl
        rw [hlabel]
        exact .founds hinv horg List.mem_cons_self
      · exact .same hr nofun
  | handOverReads caller target wrappedOrk =>
    obtain ⟨s, _, hs⟩ := Option.bind_eq_some_iff.mp hs
    simp only [Option.ite_none_right_eq_some, Option.map_eq_some_iff] at hs
    obtain ⟨_, _, _, rfl⟩ := hs
    exact .same hr nofun
  | handOverWrites id =>
    obtain ⟨h, hh, hs⟩ := Option.bind_eq_some_iff.mp hs
    simp only [Option.ite_none_left_eq_some, Option.some.injEq] at hs
    obtain ⟨_, rfl⟩ := hs
    rcases updateWhere_cases hr with ⟨hr, _⟩ | ⟨old, hold, hp, rfl⟩
    · exact .same hr nofun
    · simp only [Bool.and_eq_true, decide_eq_true_eq] at hp
      refine .handed hh hold hp.1 hp.2 fun s hseat huser horg => ?_
      exact mem_updateWhere_of hseat (by simp [huser, horg])
  | rotateBegins caller req =>
    obtain ⟨s, _, hs⟩ := Option.bind_eq_some_iff.mp hs
    simp only [Option.ite_none_right_eq_some, Option.some.injEq] at hs
    obtain ⟨_, rfl⟩ := hs
    exact .same hr nofun
  | rotateGoesOn id =>
    obtain ⟨rot, _, hs⟩ := Option.bind_eq_some_iff.mp hs
    split at hs
    · cases hs
    · split at hs <;> cases hs <;> exact .same hr nofun
  | rotateCommits id =>
    obtain ⟨rot, hrot, hs⟩ := Option.bind_eq_some_iff.mp hs
    simp only [Option.ite_none_right_eq_some, Option.some.injEq] at hs
    obtain ⟨_, rfl⟩ := hs
    obtain ⟨hin, hkept⟩ := mem_deleteWhere.mp hr
    obtain ⟨old, hold, rfl⟩ := List.mem_map.mp hin
    refine .rotated hrot hold fun horg => ?_
    simpa [horg] using hkept
  | rotateFails id =>
    cases hs
    exact .same hr nofun
  | createProxy org id wrappedDek =>
    simp only [step, createProxy, Option.ite_none_right_eq_some, Option.some.injEq] at hs
    obtain ⟨_, rfl⟩ := hs
    exact memberRow_of_insert hr href nofun nofun
  | editProxy id wrappedDek =>
    simp only [step, editProxy, Option.ite_none_right_eq_some, Option.some.injEq] at hs
    obtain ⟨_, rfl⟩ := hs
    exact memberRow_of_setKey hr href nofun nofun
  | deleteProxy id =>
    simp only [step, deleteProxy, Option.ite_none_left_eq_some, Option.some.injEq] at hs
    obtain ⟨_, rfl⟩ := hs
    rcases updateWhere_cases hr with ⟨hr, _⟩ | ⟨old, _, hp, rfl⟩
    · exact .same hr nofun
    · have hold : old.ref = .proxy id := by simpa using hp
      rw [show old.ref = .member user from href] at hold
      cases hold
  | createCredential profile id wrappedDek =>
    obtain ⟨org, _, hs⟩ := Option.bind_eq_some_iff.mp hs
    simp only [Option.ite_none_right_eq_some, Option.some.injEq] at hs
    obtain ⟨_, rfl⟩ := hs
    exact memberRow_of_insert hr href nofun nofun
  | editCredential id wrappedDek =>
    simp only [step, editCredential, Option.ite_none_right_eq_some, Option.some.injEq] at hs
    obtain ⟨_, rfl⟩ := hs
    exact memberRow_of_setKey hr href nofun nofun
  | createProfile org profile =>
    simp only [step, createProfile, Option.ite_none_right_eq_some, Option.some.injEq] at hs
    obtain ⟨_, rfl⟩ := hs
    exact memberRow_of_insert hr href nofun nofun
  | grantAccess profile other =>
    obtain ⟨org, _, hs⟩ := Option.bind_eq_some_iff.mp hs
    simp only [Option.ite_none_right_eq_some, Option.some.injEq] at hs
    obtain ⟨_, rfl⟩ := hs
    exact memberRow_of_insert hr href nofun nofun
  | shareProfile profile other wrappedKey =>
    obtain ⟨org, _, hs⟩ := Option.bind_eq_some_iff.mp hs
    simp only [Option.ite_none_left_eq_some] at hs
    obtain ⟨_, hs⟩ := hs
    split at hs <;> simp only [Option.ite_none_left_eq_some, Option.some.injEq] at hs <;>
      obtain ⟨_, rfl⟩ := hs
    · exact memberRow_of_setKey hr href nofun nofun
    · exact memberRow_of_insert hr href nofun nofun
  | uploadBundle profile id wrappedDek keyGeneration =>
    obtain ⟨org, _, hs⟩ := Option.bind_eq_some_iff.mp hs
    simp only [Option.ite_none_left_eq_some, Option.ite_none_right_eq_some,
      Option.some.injEq] at hs
    obtain ⟨_, _, rfl⟩ := hs
    exact memberRow_of_insert hr href nofun nofun
  | removeRow ref =>
    simp only [step, removeRow, Option.ite_none_left_eq_some, Option.some.injEq] at hs
    obtain ⟨_, rfl⟩ := hs
    exact .same (mem_deleteWhere.mp hr).1 nofun

/-- Requests that store or delete other rows. -/
def Label.aboutRows : Label → Bool
  | .createProxy _ _ _ => true
  | .editProxy _ _ => true
  | .deleteProxy _ => true
  | .createCredential _ _ _ => true
  | .editCredential _ _ => true
  | .createProfile _ _ => true
  | .grantAccess _ _ => true
  | .shareProfile _ _ _ => true
  | .uploadBundle _ _ _ _ => true
  | .removeRow _ => true
  | _ => false

theorem step_aboutRows (ha : a.aboutRows = true) (hs : step w a = some w') :
    w'.orgs = w.orgs ∧ w'.seats = w.seats ∧ w'.invitations = w.invitations ∧
      w'.handOvers = w.handOvers ∧ w'.rotations = w.rotations ∧ w'.nextId = w.nextId := by
  cases a with
  | createProxy org id wrappedDek =>
    simp only [step, createProxy, Option.ite_none_right_eq_some, Option.some.injEq] at hs
    obtain ⟨_, rfl⟩ := hs
    exact ⟨rfl, rfl, rfl, rfl, rfl, rfl⟩
  | editProxy id wrappedDek =>
    simp only [step, editProxy, Option.ite_none_right_eq_some, Option.some.injEq] at hs
    obtain ⟨_, rfl⟩ := hs
    exact ⟨rfl, rfl, rfl, rfl, rfl, rfl⟩
  | deleteProxy id =>
    simp only [step, deleteProxy, Option.ite_none_left_eq_some, Option.some.injEq] at hs
    obtain ⟨_, rfl⟩ := hs
    exact ⟨rfl, rfl, rfl, rfl, rfl, rfl⟩
  | createCredential profile id wrappedDek =>
    obtain ⟨org, _, hs⟩ := Option.bind_eq_some_iff.mp hs
    simp only [Option.ite_none_right_eq_some, Option.some.injEq] at hs
    obtain ⟨_, rfl⟩ := hs
    exact ⟨rfl, rfl, rfl, rfl, rfl, rfl⟩
  | editCredential id wrappedDek =>
    simp only [step, editCredential, Option.ite_none_right_eq_some, Option.some.injEq] at hs
    obtain ⟨_, rfl⟩ := hs
    exact ⟨rfl, rfl, rfl, rfl, rfl, rfl⟩
  | createProfile org profile =>
    simp only [step, createProfile, Option.ite_none_right_eq_some, Option.some.injEq] at hs
    obtain ⟨_, rfl⟩ := hs
    exact ⟨rfl, rfl, rfl, rfl, rfl, rfl⟩
  | grantAccess profile other =>
    obtain ⟨org, _, hs⟩ := Option.bind_eq_some_iff.mp hs
    simp only [Option.ite_none_right_eq_some, Option.some.injEq] at hs
    obtain ⟨_, rfl⟩ := hs
    exact ⟨rfl, rfl, rfl, rfl, rfl, rfl⟩
  | shareProfile profile other wrappedKey =>
    obtain ⟨org, _, hs⟩ := Option.bind_eq_some_iff.mp hs
    simp only [Option.ite_none_left_eq_some] at hs
    obtain ⟨_, hs⟩ := hs
    split at hs <;> simp only [Option.ite_none_left_eq_some, Option.some.injEq] at hs <;>
      obtain ⟨_, rfl⟩ := hs <;> exact ⟨rfl, rfl, rfl, rfl, rfl, rfl⟩
  | uploadBundle profile id wrappedDek keyGeneration =>
    obtain ⟨org, _, hs⟩ := Option.bind_eq_some_iff.mp hs
    simp only [Option.ite_none_left_eq_some, Option.ite_none_right_eq_some,
      Option.some.injEq] at hs
    obtain ⟨_, _, rfl⟩ := hs
    exact ⟨rfl, rfl, rfl, rfl, rfl, rfl⟩
  | removeRow ref =>
    simp only [step, removeRow, Option.ite_none_left_eq_some, Option.some.injEq] at hs
    obtain ⟨_, rfl⟩ := hs
    exact ⟨rfl, rfl, rfl, rfl, rfl, rfl⟩
  | _ => cases ha

/-- A key being handed over was there, or has just been accepted and its
generation read. -/
theorem step_handOvers (hs : step w a = some w') {h : HandOver} (hh : h ∈ w'.handOvers) :
    h ∈ w.handOvers ∨ ∃ caller s, a = .handOverReads caller h.user h.key ∧
      w.administers caller = some s ∧ h.org = s.org ∧
      w.generation s.org = some h.generation := by
  by_cases ha : a.aboutRows = true
  · obtain ⟨_, _, _, heq, _⟩ := step_aboutRows ha hs
    exact .inl (heq ▸ hh)
  cases a with
  | signup newUser org wrappedOrk =>
    simp only [step, signup, Option.ite_none_left_eq_some, Option.some.injEq] at hs
    obtain ⟨_, rfl⟩ := hs
    exact .inl hh
  | invite caller role =>
    obtain ⟨s, _, hs⟩ := Option.bind_eq_some_iff.mp hs
    simp only [Option.ite_none_left_eq_some, Option.some.injEq] at hs
    obtain ⟨_, rfl⟩ := hs
    exact .inl hh
  | cliInvite org role =>
    simp only [step, cliInvite, Option.ite_none_left_eq_some, Option.some.injEq] at hs
    obtain ⟨_, rfl⟩ := hs
    exact .inl hh
  | enroll invitation newUser newOrg wrappedOrk =>
    obtain ⟨inv, _, hs⟩ := Option.bind_eq_some_iff.mp hs
    simp only [Option.ite_none_left_eq_some] at hs
    obtain ⟨_, hs⟩ := hs
    split at hs <;> simp only [Option.ite_none_left_eq_some, Option.some.injEq] at hs <;>
      obtain ⟨_, rfl⟩ := hs <;> exact .inl hh
  | handOverReads caller target wrappedOrk =>
    obtain ⟨s, hseat, hs⟩ := Option.bind_eq_some_iff.mp hs
    simp only [Option.ite_none_right_eq_some, Option.map_eq_some_iff] at hs
    obtain ⟨_, generation, hgen, rfl⟩ := hs
    rcases List.mem_cons.mp hh with rfl | hh
    · exact .inr ⟨caller, s, rfl, hseat, rfl, hgen⟩
    · exact .inl hh
  | handOverWrites id =>
    obtain ⟨_, _, hs⟩ := Option.bind_eq_some_iff.mp hs
    simp only [Option.ite_none_left_eq_some, Option.some.injEq] at hs
    obtain ⟨_, rfl⟩ := hs
    exact .inl (mem_deleteWhere.mp hh).1
  | rotateBegins caller req =>
    obtain ⟨s, _, hs⟩ := Option.bind_eq_some_iff.mp hs
    simp only [Option.ite_none_right_eq_some, Option.some.injEq] at hs
    obtain ⟨_, rfl⟩ := hs
    exact .inl hh
  | rotateGoesOn id =>
    obtain ⟨rot, _, hs⟩ := Option.bind_eq_some_iff.mp hs
    split at hs
    · cases hs
    · split at hs <;> cases hs <;> exact .inl hh
  | rotateCommits id =>
    obtain ⟨rot, _, hs⟩ := Option.bind_eq_some_iff.mp hs
    simp only [Option.ite_none_right_eq_some, Option.some.injEq] at hs
    obtain ⟨_, rfl⟩ := hs
    exact .inl hh
  | rotateFails id =>
    cases hs
    exact .inl hh
  | _ => exact absurd rfl ha

/-- An invitation was there, or is for a new organisation or not for its owner. -/
theorem step_invitations (hs : step w a = some w') {inv : Invitation}
    (hinv : inv ∈ w'.invitations) :
    inv ∈ w.invitations ∨ (inv.org.isSome = true → inv.role ≠ .owner) := by
  by_cases ha : a.aboutRows = true
  · obtain ⟨_, _, heq, _⟩ := step_aboutRows ha hs
    exact .inl (heq ▸ hinv)
  cases a with
  | signup newUser org wrappedOrk =>
    simp only [step, signup, Option.ite_none_left_eq_some, Option.some.injEq] at hs
    obtain ⟨_, rfl⟩ := hs
    exact .inl hinv
  | invite caller role =>
    obtain ⟨s, _, hs⟩ := Option.bind_eq_some_iff.mp hs
    simp only [Option.ite_none_left_eq_some, Bool.or_eq_true, not_or, decide_eq_true_eq,
      Option.some.injEq] at hs
    obtain ⟨⟨hrole, _⟩, rfl⟩ := hs
    rcases List.mem_cons.mp hinv with rfl | hinv
    · exact .inr fun _ => hrole
    · exact .inl hinv
  | cliInvite org role =>
    simp only [step, cliInvite, Option.ite_none_left_eq_some, Option.some.injEq] at hs
    obtain ⟨hnot, rfl⟩ := hs
    rcases List.mem_cons.mp hinv with rfl | hinv
    · refine .inr fun hsome hrole => hnot ?_
      obtain ⟨id, rfl⟩ := Option.isSome_iff_exists.mp hsome
      simp [show role = .owner from hrole]
    · exact .inl hinv
  | enroll invitation newUser newOrg wrappedOrk =>
    obtain ⟨inv, _, hs⟩ := Option.bind_eq_some_iff.mp hs
    simp only [Option.ite_none_left_eq_some] at hs
    obtain ⟨_, hs⟩ := hs
    split at hs <;> simp only [Option.ite_none_left_eq_some, Option.some.injEq] at hs <;>
      obtain ⟨_, rfl⟩ := hs <;> exact .inl (mem_deleteWhere.mp hinv).1
  | handOverReads caller target wrappedOrk =>
    obtain ⟨_, _, hs⟩ := Option.bind_eq_some_iff.mp hs
    simp only [Option.ite_none_right_eq_some, Option.map_eq_some_iff] at hs
    obtain ⟨_, _, _, rfl⟩ := hs
    exact .inl hinv
  | handOverWrites id =>
    obtain ⟨_, _, hs⟩ := Option.bind_eq_some_iff.mp hs
    simp only [Option.ite_none_left_eq_some, Option.some.injEq] at hs
    obtain ⟨_, rfl⟩ := hs
    exact .inl hinv
  | rotateBegins caller req =>
    obtain ⟨_, _, hs⟩ := Option.bind_eq_some_iff.mp hs
    simp only [Option.ite_none_right_eq_some, Option.some.injEq] at hs
    obtain ⟨_, rfl⟩ := hs
    exact .inl hinv
  | rotateGoesOn id =>
    obtain ⟨rot, _, hs⟩ := Option.bind_eq_some_iff.mp hs
    split at hs
    · cases hs
    · split at hs <;> cases hs <;> exact .inl hinv
  | rotateCommits id =>
    obtain ⟨rot, _, hs⟩ := Option.bind_eq_some_iff.mp hs
    simp only [Option.ite_none_right_eq_some, Option.some.injEq] at hs
    obtain ⟨_, rfl⟩ := hs
    exact .inl hinv
  | rotateFails id =>
    cases hs
    exact .inl hinv
  | _ => exact absurd rfl ha

/-- A seat stays, with what became of its member, unless a rotation removes it. -/
theorem step_seats (hs : step w a = some w') {s : Seat} (hseat : s ∈ w.seats) :
    (∃ s' ∈ w'.seats, s'.user = s.user ∧ s'.org = s.org ∧
      (s.founder = true ∨ s.admitted = true → s'.founder = true ∨ s'.admitted = true)) ∨
    ∃ id rot, a = .rotateCommits id ∧ lookup Rotation.id w.rotations id = some rot ∧
      s.org = rot.org ∧ rot.removes (.member s.user) = true := by
  by_cases ha : a.aboutRows = true
  · obtain ⟨_, heq, _⟩ := step_aboutRows ha hs
    exact .inl ⟨s, heq ▸ hseat, rfl, rfl, id⟩
  cases a with
  | signup newUser org wrappedOrk =>
    simp only [step, signup, Option.ite_none_left_eq_some, Option.some.injEq] at hs
    obtain ⟨_, rfl⟩ := hs
    exact .inl ⟨s, List.mem_cons_of_mem _ hseat, rfl, rfl, id⟩
  | invite caller role =>
    obtain ⟨_, _, hs⟩ := Option.bind_eq_some_iff.mp hs
    simp only [Option.ite_none_left_eq_some, Option.some.injEq] at hs
    obtain ⟨_, rfl⟩ := hs
    exact .inl ⟨s, hseat, rfl, rfl, id⟩
  | cliInvite org role =>
    simp only [step, cliInvite, Option.ite_none_left_eq_some, Option.some.injEq] at hs
    obtain ⟨_, rfl⟩ := hs
    exact .inl ⟨s, hseat, rfl, rfl, id⟩
  | enroll invitation newUser newOrg wrappedOrk =>
    obtain ⟨inv, _, hs⟩ := Option.bind_eq_some_iff.mp hs
    simp only [Option.ite_none_left_eq_some] at hs
    obtain ⟨_, hs⟩ := hs
    split at hs <;> simp only [Option.ite_none_left_eq_some, Option.some.injEq] at hs <;>
      obtain ⟨_, rfl⟩ := hs <;> exact .inl ⟨s, List.mem_cons_of_mem _ hseat, rfl, rfl, id⟩
  | handOverReads caller target wrappedOrk =>
    obtain ⟨_, _, hs⟩ := Option.bind_eq_some_iff.mp hs
    simp only [Option.ite_none_right_eq_some, Option.map_eq_some_iff] at hs
    obtain ⟨_, _, _, rfl⟩ := hs
    exact .inl ⟨s, hseat, rfl, rfl, id⟩
  | handOverWrites id =>
    obtain ⟨h, _, hs⟩ := Option.bind_eq_some_iff.mp hs
    simp only [Option.ite_none_left_eq_some, Option.some.injEq] at hs
    obtain ⟨_, rfl⟩ := hs
    left
    cases hp : (s.user = h.user && s.org = h.org : Bool) with
    | true => exact ⟨_, mem_updateWhere_of hseat hp, rfl, rfl, fun _ => .inr rfl⟩
    | false => exact ⟨s, mem_updateWhere_of_not hseat hp, rfl, rfl, fun h => h⟩
  | rotateBegins caller req =>
    obtain ⟨_, _, hs⟩ := Option.bind_eq_some_iff.mp hs
    simp only [Option.ite_none_right_eq_some, Option.some.injEq] at hs
    obtain ⟨_, rfl⟩ := hs
    exact .inl ⟨s, hseat, rfl, rfl, id⟩
  | rotateGoesOn id =>
    obtain ⟨rot, _, hs⟩ := Option.bind_eq_some_iff.mp hs
    split at hs
    · cases hs
    · split at hs <;> cases hs <;> exact .inl ⟨s, hseat, rfl, rfl, fun h => h⟩
  | rotateCommits id =>
    obtain ⟨rot, hrot, hs⟩ := Option.bind_eq_some_iff.mp hs
    simp only [Option.ite_none_right_eq_some, Option.some.injEq] at hs
    obtain ⟨_, rfl⟩ := hs
    cases hp : (s.org = rot.org && rot.removes (.member s.user) : Bool) with
    | true =>
      simp only [Bool.and_eq_true, decide_eq_true_eq] at hp
      exact .inr ⟨id, rot, rfl, hrot, hp.1, hp.2⟩
    | false => exact .inl ⟨s, mem_deleteWhere.mpr ⟨hseat, hp⟩, rfl, rfl, fun h => h⟩
  | rotateFails id =>
    cases hs
    exact .inl ⟨s, hseat, rfl, rfl, fun h => h⟩
  | _ => exact absurd rfl ha

/-- Rotations have ids of their own, and an organisation has one at a time. -/
structure Separate (w : World) : Prop where
  ids : KeyUnique Rotation.id w.rotations
  /-- The next id is a new one. -/
  old : ∀ rot ∈ w.rotations, rot.id < w.nextId
  orgs : KeyUnique Rotation.org w.rotations

theorem separate_empty : Separate empty := ⟨keyUnique_nil, nofun, keyUnique_nil⟩

theorem Separate.same (h : Separate w) (hrots : w'.rotations = w.rotations)
    (hnext : w.nextId ≤ w'.nextId) : Separate w' :=
  ⟨hrots ▸ h.ids, fun rot hrot => Nat.lt_of_lt_of_le (h.old rot (hrots ▸ hrot)) hnext,
    hrots ▸ h.orgs⟩

theorem Separate.rollback (h : Separate w) {id : ℕ}
    (hrots : w'.rotations = (w.rollback id).rotations) (hnext : w'.nextId = w.nextId) :
    Separate w' := by
  refine ⟨?_, fun rot hrot => ?_, ?_⟩
  · rw [hrots]
    exact h.ids.deleteWhere
  · rw [hrots] at hrot
    rw [hnext]
    exact h.old rot (mem_deleteWhere.mp hrot).1
  · rw [hrots]
    exact h.orgs.deleteWhere

/-- The rotations after a request: those there were, less one that ends, with one
more, or with one a statement further. -/
inductive RotationsAfter (w w' : World) : Label → Prop where
  /-- The request is not about one. -/
  | same {a : Label} (hrots : w'.rotations = w.rotations) (hnext : w.nextId ≤ w'.nextId)
    (ha : ∀ id, a ≠ .rotateCommits id) : RotationsAfter w w' a
  /-- One ends, by its commit or otherwise. -/
  | ends {a : Label} {id : ℕ} (hrots : w'.rotations = (w.rollback id).rotations)
    (hnext : w'.nextId = w.nextId) (ha : ∀ other, a = .rotateCommits other → other = id) :
    RotationsAfter w w' a
  | begins {caller org : ℕ} {req : RotateRequest} (hfree : w.rotating org = false)
    (hrots : w'.rotations = ⟨w.nextId, org, req, plan, []⟩ :: w.rotations)
    (hnext : w'.nextId = w.nextId + 1) : RotationsAfter w w' (.rotateBegins caller req)
  /-- One runs its next statement. -/
  | runs {id : ℕ} {rot : Rotation} {phase : Phase} {rest : List Phase}
    {writes : List (Ref × Sealed)} (hrot : lookup Rotation.id w.rotations id = some rot)
    (htodo : rot.todo = phase :: rest) (hruns : rot.runs w phase = some writes)
    (hrots : w'.rotations = updateWhere (fun r => r.id = id)
      (fun r => { r with todo := rest, writes := writes }) w.rotations)
    (hnext : w'.nextId = w.nextId) : RotationsAfter w w' (.rotateGoesOn id)

theorem step_rotations (hs : step w a = some w') : RotationsAfter w w' a := by
  by_cases ha : a.aboutRows = true
  · obtain ⟨_, _, _, _, hrots, hnext⟩ := step_aboutRows ha hs
    refine .same hrots (Nat.le_of_eq hnext.symm) fun id heq => ?_
    rw [heq] at ha
    cases ha
  cases a with
  | signup newUser org wrappedOrk =>
    simp only [step, signup, Option.ite_none_left_eq_some, Option.some.injEq] at hs
    obtain ⟨_, rfl⟩ := hs
    exact .same rfl (Nat.le_refl _) nofun
  | invite caller role =>
    obtain ⟨_, _, hs⟩ := Option.bind_eq_some_iff.mp hs
    simp only [Option.ite_none_left_eq_some, Option.some.injEq] at hs
    obtain ⟨_, rfl⟩ := hs
    exact .same rfl (Nat.le_succ _) nofun
  | cliInvite org role =>
    simp only [step, cliInvite, Option.ite_none_left_eq_some, Option.some.injEq] at hs
    obtain ⟨_, rfl⟩ := hs
    exact .same rfl (Nat.le_succ _) nofun
  | enroll invitation newUser newOrg wrappedOrk =>
    obtain ⟨inv, _, hs⟩ := Option.bind_eq_some_iff.mp hs
    simp only [Option.ite_none_left_eq_some] at hs
    obtain ⟨_, hs⟩ := hs
    split at hs <;> simp only [Option.ite_none_left_eq_some, Option.some.injEq] at hs <;>
      obtain ⟨_, rfl⟩ := hs <;> exact .same rfl (Nat.le_refl _) nofun
  | handOverReads caller target wrappedOrk =>
    obtain ⟨_, _, hs⟩ := Option.bind_eq_some_iff.mp hs
    simp only [Option.ite_none_right_eq_some, Option.map_eq_some_iff] at hs
    obtain ⟨_, _, _, rfl⟩ := hs
    exact .same rfl (Nat.le_succ _) nofun
  | handOverWrites id =>
    obtain ⟨_, _, hs⟩ := Option.bind_eq_some_iff.mp hs
    simp only [Option.ite_none_left_eq_some, Option.some.injEq] at hs
    obtain ⟨_, rfl⟩ := hs
    exact .same rfl (Nat.le_refl _) nofun
  | rotateBegins caller req =>
    obtain ⟨s, _, hs⟩ := Option.bind_eq_some_iff.mp hs
    simp only [Option.ite_none_right_eq_some, Bool.and_eq_true, Bool.not_eq_eq_eq_not,
      Bool.not_true, Option.some.injEq] at hs
    obtain ⟨⟨⟨_, hfree⟩, _⟩, rfl⟩ := hs
    exact .begins hfree rfl rfl
  | rotateGoesOn id =>
    obtain ⟨rot, hrot, hs⟩ := Option.bind_eq_some_iff.mp hs
    split at hs
    · cases hs
    · next phase rest htodo =>
      split at hs <;> cases hs
      · exact .ends rfl rfl nofun
      · next writes hruns => exact .runs hrot htodo hruns rfl rfl
  | rotateCommits id =>
    obtain ⟨rot, _, hs⟩ := Option.bind_eq_some_iff.mp hs
    simp only [Option.ite_none_right_eq_some, Option.some.injEq] at hs
    obtain ⟨_, rfl⟩ := hs
    exact .ends rfl rfl fun _ heq => (Label.rotateCommits.inj heq).symm
  | rotateFails id =>
    cases hs
    exact .ends rfl rfl nofun
  | _ => exact absurd rfl ha

/-- Whatever the requests are, rotations stay separate. -/
theorem separate_step (h : Separate w) (hs : step w a = some w') : Separate w' := by
  cases step_rotations hs with
  | same hrots hnext _ => exact h.same hrots hnext
  | ends hrots hnext _ => exact h.rollback hrots hnext
  | begins hfree hrots hnext =>
    refine ⟨?_, fun rot hrot => ?_, ?_⟩
    · rw [hrots]
      exact h.ids.cons fun rot hrot => Nat.ne_of_lt (h.old rot hrot)
    · rw [hrots] at hrot
      rw [hnext]
      rcases List.mem_cons.mp hrot with rfl | hrot
      · exact Nat.lt_succ_self _
      · exact Nat.lt_succ_of_lt (h.old rot hrot)
    · rw [hrots]
      exact h.orgs.cons fun rot hrot => by simpa using List.any_eq_false.mp hfree rot hrot
  | runs hrot htodo hruns hrots hnext =>
    refine ⟨?_, fun rot hrot => ?_, ?_⟩
    · rw [hrots]
      exact h.ids.updateWhere fun _ _ => rfl
    · rw [hrots] at hrot
      rw [hnext]
      rcases updateWhere_cases hrot with ⟨hin, _⟩ | ⟨old, hin, _, rfl⟩
      · exact h.old rot hin
      · exact h.old old hin
    · rw [hrots]
      exact h.orgs.updateWhere fun _ _ => rfl

/-- What is supplied for a table are rows of it. -/
theorem kind_of_supplied {req : RotateRequest} {kind : Kind} {s : Ref × Sealed}
    (hs : s ∈ req.supplied kind) : s.1.kind = kind := by
  cases kind <;> obtain ⟨_, _, rfl⟩ := List.mem_map.mp hs <;> rfl

/-- What a statement adds to the writes are rows of its table that match. -/
theorem writes_of_runs {rot : Rotation} {phase : Phase} {writes : List (Ref × Sealed)}
    (hruns : rot.runs w phase = some writes) {s : Ref × Sealed} (hs : s ∈ writes) :
    s ∈ rot.writes ∨ ∃ r ∈ w.rows, rot.sees r = true ∧ r.ref = s.1 ∧
      s.1.kind.updates r = true := by
  cases phase with
  | check kind =>
    simp only [Rotation.runs, Option.ite_none_right_eq_some, Option.some.injEq] at hruns
    obtain ⟨_, rfl⟩ := hruns
    exact .inl hs
  | write kind =>
    simp only [Rotation.runs, Option.ite_none_right_eq_some, Option.some.injEq] at hruns
    obtain ⟨_, rfl⟩ := hruns
    rcases List.mem_append.mp hs with hin | hin
    · exact .inl hin
    · obtain ⟨hsup, hany⟩ := List.mem_filter.mp hin
      obtain ⟨r, hr, hmatch⟩ := List.any_eq_true.mp hany
      simp only [Bool.and_eq_true, decide_eq_true_eq] at hmatch
      obtain ⟨⟨hsees, href⟩, hupdates⟩ := hmatch
      exact .inr ⟨r, hr, hsees, href, by rw [kind_of_supplied hsup]; exact hupdates⟩

end FuryBrowser.OrgKeys
