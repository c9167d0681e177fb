import Mathlib.Data.List.Infix
import FuryBrowser.OrgKeySteps

/-!
# The owner of an organisation

An organisation is created for its owner, who brings its key; nobody is invited to be a
second one, made one or removed as one, and a rotation seals the new key to the owner
among the others. To the requests about keys come those that change a role, which read
the roles in one statement and write in another.

The command line lets an invitation create an organisation for somebody who is not to be
its owner. As long as nobody enrols on one of those, and no key but the one in force is
handed to an owner, every organisation has one owner, who has the key in force.
-/

namespace FuryBrowser.OrgOwner

open GuardedRuns RowTable OrgKeys

/-- A `set_member_role` between its two statements. -/
structure RoleChange where
  id : ℕ
  /-- The caller's organisation. -/
  org : ℕ
  user : ℕ
  role : Role
  deriving DecidableEq, Repr

/-- The database, and the role changes between two statements. -/
structure Server where
  /-- The tables, and the requests about keys. -/
  keys : OrgKeys.World
  changes : List RoleChange
  nextId : ℕ
  deriving DecidableEq, Repr

/-- What can happen next. -/
inductive Act where
  | keys (label : OrgKeys.Label)
  /-- `set_member_role` reads the roles. -/
  | setRoleReads (caller user : ℕ) (role : Role)
  /-- `set_member_role` writes the new one. -/
  | setRoleWrites (id : ℕ)
  /-- It is lost, or refused for want of a fresh code. -/
  | setRoleLost (id : ℕ)
  deriving DecidableEq, Repr

/-- The checks of `set_member_role`. -/
def setRoleReads (w : Server) (caller user : ℕ) (role : Role) : Option Server :=
  (w.keys.administers caller).bind fun s =>
    if role = .owner || user = caller then none
    else ((lookup Seat.user w.keys.seats user).filter fun t => t.org = s.org).bind fun t =>
      if t.role = .owner || (s.role = .admin && (role = .admin || t.role = .admin)) ||
          t.role = role then none
      else some { w with
        changes := ⟨w.nextId, s.org, user, role⟩ :: w.changes
        nextId := w.nextId + 1 }

/-- The `UPDATE` of `set_member_role`. -/
def setRoleWrites (w : Server) (id : ℕ) : Option Server :=
  (lookup RoleChange.id w.changes id).bind fun c =>
    if w.keys.locked (.member c.user) then none
    else some { w with
      keys := { w.keys with
        seats := updateWhere (fun s => s.user = c.user && s.org = c.org)
          (fun s => { s with role := c.role }) w.keys.seats }
      changes := deleteWhere (fun c => c.id = id) w.changes }

/-- One step. -/
def step (w : Server) : Act → Option Server
  | .keys label => (OrgKeys.step w.keys label).map fun keys => { w with keys := keys }
  | .setRoleReads caller user role => setRoleReads w caller user role
  | .setRoleWrites id => setRoleWrites w id
  | .setRoleLost id => some { w with changes := deleteWhere (fun c => c.id = id) w.changes }

/-- An empty server. -/
def empty : Server := ⟨OrgKeys.empty, [], 0⟩

/-- The server has just been set up. -/
def init (w : Server) : Prop := w = empty

/-- The server after these steps. -/
def after (labels : List Act) : Server := (run step empty labels).getD empty

/-- Somebody owns an organisation. -/
def Owns (w : OrgKeys.World) (user org : ℕ) : Prop :=
  ∃ s ∈ w.seats, s.user = user ∧ s.org = org ∧ s.role = .owner

/-- Somebody's row holds the key in force, and says so. -/
def Holds (w : OrgKeys.World) (o : Org) (user : ℕ) : Prop :=
  ∃ r ∈ w.rows, r.ref = .member user ∧ r.org = o.id ∧
    (∃ k, r.key = some k ∧ k.generation = o.generation) ∧ r.label = some o.generation

/-- Every organisation has one owner, who has its key. -/
def EveryOrgOwned (w : OrgKeys.World) : Prop :=
  ∀ o ∈ w.orgs, ∃ s ∈ w.seats, s.org = o.id ∧ s.role = .owner ∧
    (∀ t ∈ w.seats, t.org = o.id → t.role = .owner → t = s) ∧ Holds w o s.user

/-- An invitation that creates an organisation creates it for its owner, and an owner is
handed no other key than the one in force. -/
def Founded (w : Server) : Act → Prop
  | .keys (.enroll invitation _ _ _) =>
    ∀ inv ∈ lookup Invitation.id w.keys.invitations invitation, inv.org = none → inv.role = .owner
  | .keys (.handOverWrites id) => ∀ h ∈ lookup HandOver.id w.keys.handOvers id,
      (∃ s ∈ w.keys.seats, s.user = h.user ∧ s.org = h.org ∧ s.role = .owner) →
      w.keys.generation h.org = some h.generation ∧ h.key.generation = h.generation
  | _ => True

instance : DecidableRel Founded := fun w a => by
  rcases a with (_ | _) | _ <;> dsimp only [Founded] <;> infer_instance

/-- What a rotation in flight does for an owner. -/
structure Rotates (w : OrgKeys.World) (rot : Rotation) : Prop where
  /-- It rotates the generation it was computed against. -/
  base : w.generation rot.org = some rot.req.generation
  stage : rot.todo ∈ plan.tails
  /-- It does not remove the owner. -/
  spares : ∀ user, Owns w user rot.org → rot.removes (.member user) = false
  /-- Past the check of members, it supplies the owner's key. -/
  supplied : .check .members ∉ rot.todo → ∀ user, Owns w user rot.org →
    ∃ x ∈ rot.req.supplied .members, x.1 = .member user
  /-- Past their update, it has written it. -/
  written : .write .members ∉ rot.todo → ∀ user, Owns w user rot.org →
    ∃ x ∈ rot.writes, x.1 = .member user

/-- What the runs keep of the tables. -/
structure Inv (w : OrgKeys.World) : Prop where
  /-- Organisations have their own ids. -/
  orgIds : KeyUnique Org.id w.orgs
  users : KeyUnique Seat.user w.seats
  /-- The organisation of a seat exists. -/
  homes : ∀ s ∈ w.seats, (w.generation s.org).isSome = true
  /-- Nobody is invited to be a second owner. -/
  oneOwner : ∀ inv ∈ w.invitations, inv.org.isSome = true → inv.role ≠ .owner
  /-- Rotations are separate. -/
  separate : Separate w
  /-- An organisation has one owner, who has its key. -/
  owned : ∀ o ∈ w.orgs, ∃ user, Owns w user o.id ∧ (∀ other, Owns w other o.id → other = user) ∧
    Holds w o user
  /-- Rotations do what they should for it. -/
  rotating : ∀ rot ∈ w.rotations, Rotates w rot

theorem inv_empty : Inv OrgKeys.empty :=
  ⟨keyUnique_nil, keyUnique_nil, List.forall_mem_nil _, List.forall_mem_nil _, separate_empty,
    List.forall_mem_nil _, List.forall_mem_nil _⟩

/-- Owners come with their organisation, and organisations stay. -/
structure Later (w w' : OrgKeys.World) : Prop where
  /-- A new owner is one of a new organisation. -/
  owns : ∀ user org, Owns w' user org → Owns w user org ∨ w.generation org = none
  orgs : ∀ org, (w.generation org).isSome = true → (w'.generation org).isSome = true

variable {w w' : OrgKeys.World} {a : OrgKeys.Label}

/-- A generation is the one of the organisation's row. -/
theorem generation_eq (h : KeyUnique Org.id w.orgs) {o : Org} (ho : o ∈ w.orgs) :
    w.generation o.id = some o.generation := by
  rw [World.generation, lookup_of_mem h ho]
  rfl

/-- The owner of an organisation has its key. -/
theorem Inv.holds (h : Inv w) {user org generation : ℕ} (hgen : w.generation org = some generation)
    (howns : Owns w user org) :
    ∃ o ∈ w.orgs, o.id = org ∧ o.generation = generation ∧ Holds w o user := by
  obtain ⟨o, ho, rfl⟩ := Option.map_eq_some_iff.mp hgen
  obtain ⟨hin, rfl⟩ := lookup_some ho
  obtain ⟨owner, _, honly, hholds⟩ := h.owned o hin
  exact ⟨o, hin, rfl, rfl, honly user howns ▸ hholds⟩

/-- A rotation goes on doing what it should while its organisation and owners stay. -/
theorem Rotates.congr {rot : Rotation} (h : Rotates w rot)
    (hgen : w'.generation rot.org = w.generation rot.org)
    (howns : ∀ user, Owns w' user rot.org → Owns w user rot.org) : Rotates w' rot :=
  ⟨hgen.trans h.base, h.stage, fun user ho => h.spares user (howns user ho),
    fun hpast user ho => h.supplied hpast user (howns user ho),
    fun hpast user ho => h.written hpast user (howns user ho)⟩

/-- Whatever leaves organisations, their owners and the owners' rows. -/
theorem Inv.frame (h : Inv w) (horgs : w'.orgs = w.orgs)
    (howns : ∀ user org, Owns w' user org ↔ Owns w user org)
    (hholds : ∀ o ∈ w.orgs, ∀ user, Owns w user o.id → Holds w o user → Holds w' o user)
    (hrots : ∀ rot ∈ w'.rotations, Rotates w rot) (husers : KeyUnique Seat.user w'.seats)
    (hhomes : ∀ s ∈ w'.seats, (w.generation s.org).isSome = true)
    (hinv : ∀ inv ∈ w'.invitations, inv ∈ w.invitations ∨
      (inv.org.isSome = true → inv.role ≠ .owner))
    (hsep : Separate w') : Inv w' ∧ Later w w' := by
  have hgen : ∀ org, w'.generation org = w.generation org := fun org => by
    rw [World.generation, horgs, World.generation]
  refine ⟨⟨horgs ▸ h.orgIds, husers, fun s hs => hgen s.org ▸ hhomes s hs, ?_, hsep, ?_, ?_⟩,
    ⟨fun user org ho => .inl ((howns user org).mp ho), fun org hsome => hgen org ▸ hsome⟩⟩
  · intro inv hin
    rcases hinv inv hin with hold | hnew
    · exact h.oneOwner inv hold
    · exact hnew
  · intro o ho
    obtain ⟨user, hown, honly, hhold⟩ := h.owned o (horgs ▸ ho)
    exact ⟨user, (howns user o.id).mpr hown,
      fun other hother => honly other ((howns other o.id).mp hother),
      hholds o (horgs ▸ ho) user hown hhold⟩
  · intro rot hrot
    exact (hrots rot hrot).congr (hgen rot.org) fun user => (howns user rot.org).mp

/-- Seats that are the same have the same owners. -/
theorem owns_of_seats (hseats : w'.seats = w.seats) (user org : ℕ) :
    Owns w' user org ↔ Owns w user org := by
  rw [Owns, hseats, Owns]

/-- Rows that are there still hold what they held. -/
theorem holds_of_rows (hrows : ∀ r ∈ w.rows, r.ref.kind = .members → r ∈ w'.rows) (o : Org)
    (user : ℕ) (h : Holds w o user) : Holds w' o user := by
  obtain ⟨r, hr, href, hholds⟩ := h
  exact ⟨r, hrows r hr (by rw [href]; rfl), href, hholds⟩

/-- Storing and deleting other rows leaves those of members. -/
theorem member_stays (ha : a.aboutRows = true) (hs : OrgKeys.step w a = some w') {r : Row}
    (hr : r ∈ w.rows) (hkind : r.ref.kind = .members) : r ∈ w'.rows := by
  have hset : ∀ {ref : Ref} {key : Key}, ref.kind ≠ .members → r ∈ (w.setKey ref key).rows := by
    intro ref key hne
    exact mem_updateWhere_of_not hr (decide_eq_false fun heq => hne (heq ▸ hkind))
  cases a with
  | createProxy org id wrappedDek =>
    simp only [OrgKeys.step, createProxy, Option.ite_none_right_eq_some, Option.some.injEq] at hs
    obtain ⟨_, rfl⟩ := hs
    exact List.mem_cons_of_mem _ hr
  | editProxy id wrappedDek =>
    simp only [OrgKeys.step, editProxy, Option.ite_none_right_eq_some, Option.some.injEq] at hs
    obtain ⟨_, rfl⟩ := hs
    exact hset (by simp [Ref.kind])
  | deleteProxy id =>
    simp only [OrgKeys.step, deleteProxy, Option.ite_none_left_eq_some, Option.some.injEq] at hs
    obtain ⟨_, rfl⟩ := hs
    refine mem_updateWhere_of_not hr (decide_eq_false fun heq => ?_)
    rw [heq] at hkind
    cases hkind
  | createCredential profile id wrappedDek =>
    obtain ⟨org, _, hs⟩ := Option.bind_eq_some_iff.mp hs
    simp only [Option.ite_none_right_eq_some, Option.some.injEq] at hs
    obtain ⟨_, rfl⟩ := hs
    exact List.mem_cons_of_mem _ hr
  | editCredential id wrappedDek =>
    simp only [OrgKeys.step, editCredential, Option.ite_none_right_eq_some,
      Option.some.injEq] at hs
    obtain ⟨_, rfl⟩ := hs
    exact hset (by simp [Ref.kind])
  | createProfile org profile =>
    simp only [OrgKeys.step, createProfile, Option.ite_none_right_eq_some, Option.some.injEq] at hs
    obtain ⟨_, rfl⟩ := hs
    exact List.mem_cons_of_mem _ hr
  | grantAccess profile other =>
    obtain ⟨org, _, hs⟩ := Option.bind_eq_some_iff.mp hs
    simp only [Option.ite_none_right_eq_some, Option.some.injEq] at hs
    obtain ⟨_, rfl⟩ := hs
    exact List.mem_cons_of_mem _ hr
  | shareProfile profile other wrappedKey =>
    obtain ⟨org, _, hs⟩ := Option.bind_eq_some_iff.mp hs
    simp only [Option.ite_none_left_eq_some] at hs
    obtain ⟨_, hs⟩ := hs
    split at hs <;> simp only [Option.ite_none_left_eq_some, Option.some.injEq] at hs <;>
      obtain ⟨_, rfl⟩ := hs
    · exact hset (by simp [Ref.kind])
    · exact List.mem_cons_of_mem _ hr
  | uploadBundle profile id wrappedDek keyGeneration =>
    obtain ⟨org, _, hs⟩ := Option.bind_eq_some_iff.mp hs
    simp only [Option.ite_none_left_eq_some, Option.ite_none_right_eq_some,
      Option.some.injEq] at hs
    obtain ⟨_, _, rfl⟩ := hs
    exact List.mem_cons_of_mem _ hr
  | removeRow ref =>
    simp only [OrgKeys.step, removeRow, Option.ite_none_left_eq_some, Option.some.injEq,
      Bool.or_eq_true, not_or, decide_eq_true_eq] at hs
    obtain ⟨⟨hne, _⟩, rfl⟩ := hs
    exact mem_deleteWhere.mpr ⟨hr, decide_eq_false fun heq => hne (heq ▸ hkind)⟩
  | _ => cases ha

/-- An organisation is created for its owner. -/
theorem inv_found (founder : Bool) (blob : Sealed) (h : Inv w) {user org : ℕ}
    (hfresh : w.generation org = none) (hfree : lookup Seat.user w.seats user = none)
    (horgs : w'.orgs = ⟨org, 1, []⟩ :: w.orgs)
    (hseats : w'.seats = ⟨user, org, .owner, founder, false⟩ :: w.seats)
    (hrows : w'.rows = ⟨.member user, org, some ⟨blob, 1⟩, some 1, false⟩ :: w.rows)
    (hrots : w'.rotations = w.rotations)
    (hinv : ∀ inv ∈ w'.invitations, inv ∈ w.invitations ∨
      (inv.org.isSome = true → inv.role ≠ .owner))
    (hsep : Separate w') : Inv w' ∧ Later w w' := by
  have hne : ∀ {x}, (w.generation x).isSome = true → org ≠ x := by
    rintro x hx rfl
    rw [hfresh] at hx
    cases hx
  have hgen : ∀ {x}, (w.generation x).isSome = true → w'.generation x = w.generation x := by
    intro x hx
    simp [World.generation, lookup, horgs, hne hx]
  have hnew : w'.generation org = some 1 := by
    simp [World.generation, lookup, horgs]
  have howns : ∀ other x, Owns w' other x ↔ Owns w other x ∨ (other = user ∧ x = org) := by
    intro other x
    unfold Owns
    rw [hseats]
    constructor
    · rintro ⟨s, hs, rfl, rfl, hrole⟩
      rcases List.mem_cons.mp hs with rfl | hs
      · exact .inr ⟨rfl, rfl⟩
      · exact .inl ⟨s, hs, rfl, rfl, hrole⟩
    · rintro (⟨s, hs, hs'⟩ | ⟨rfl, rfl⟩)
      · exact ⟨s, List.mem_cons_of_mem _ hs, hs'⟩
      · exact ⟨_, List.mem_cons_self, rfl, rfl, rfl⟩
  have hstays : ∀ o x, Holds w o x → Holds w' o x :=
    holds_of_rows fun r hr _ => hrows ▸ List.mem_cons_of_mem _ hr
  have hexists : ∀ o ∈ w.orgs, (w.generation o.id).isSome = true := fun o ho => by
    rw [generation_eq h.orgIds ho]
    rfl
  refine ⟨⟨?_, ?_, ?_, ?_, hsep, ?_, ?_⟩, ?_, ?_⟩
  · rw [horgs]
    exact h.orgIds.cons fun o ho heq => hne (hexists o ho) heq.symm
  · rw [hseats]
    exact h.users.cons (lookup_none hfree)
  · intro s hs
    rw [hseats] at hs
    rcases List.mem_cons.mp hs with rfl | hs
    · rw [hnew]
      rfl
    · rw [hgen (h.homes s hs)]
      exact h.homes s hs
  · intro inv hin
    rcases hinv inv hin with hold | hnew
    · exact h.oneOwner inv hold
    · exact hnew
  · intro o ho
    rw [horgs] at ho
    rcases List.mem_cons.mp ho with rfl | ho
    · refine ⟨user, (howns user org).mpr (.inr ⟨rfl, rfl⟩), ?_, ?_⟩
      · intro other hother
        rcases (howns other org).mp hother with ⟨s, hs, _, horg, _⟩ | ⟨heq, _⟩
        · exact absurd horg.symm (hne (h.homes s hs))
        · exact heq
      · exact ⟨_, hrows ▸ List.mem_cons_self, rfl, rfl, ⟨_, rfl, rfl⟩, rfl⟩
    · obtain ⟨owner, hown, honly, hhold⟩ := h.owned o ho
      refine ⟨owner, (howns owner o.id).mpr (.inl hown), ?_, hstays o owner hhold⟩
      intro other hother
      rcases (howns other o.id).mp hother with hold | ⟨_, heq⟩
      · exact honly other hold
      · exact absurd heq.symm (hne (hexists o ho))
  · intro rot hrot
    have hrotates := h.rotating rot (hrots ▸ hrot)
    have hsome : (w.generation rot.org).isSome = true := by
      rw [hrotates.base]
      rfl
    refine hrotates.congr (hgen hsome) fun other hother => ?_
    rcases (howns other rot.org).mp hother with hold | ⟨_, heq⟩
    · exact hold
    · exact absurd heq.symm (hne hsome)
  · intro other x hother
    rcases (howns other x).mp hother with hold | ⟨_, rfl⟩
    · exact .inl hold
    · exact .inr hfresh
  · intro x hx
    rw [hgen hx]
    exact hx

/-- Somebody enrols, as the owner of a new organisation or as another member. -/
theorem inv_enroll {invitation user newOrg : ℕ} {wrappedOrk : Option Key} (h : Inv w)
    (hfounded : ∀ inv ∈ lookup Invitation.id w.invitations invitation,
      inv.org = none → inv.role = .owner)
    (hs : OrgKeys.step w (.enroll invitation user newOrg wrappedOrk) = some w') :
    Inv w' ∧ Later w w' := by
  have hsep := separate_step h.separate hs
  have hinv : ∀ i ∈ w'.invitations, i ∈ w.invitations ∨ (i.org.isSome = true → i.role ≠ .owner) :=
    fun _ => step_invitations hs
  obtain ⟨inv, hfound, hs⟩ := Option.bind_eq_some_iff.mp hs
  simp only [Option.ite_none_left_eq_some, Bool.or_eq_true, not_or, Bool.not_eq_true] at hs
  obtain ⟨⟨⟨howner, hfree⟩, _⟩, hs⟩ := hs
  have hfree : lookup Seat.user w.seats user = none := by simpa using hfree
  cases horg : inv.org with
  | some org =>
    rw [horg] at hs
    simp only [Option.ite_none_left_eq_some, not_or, Bool.not_eq_true, Option.some.injEq] at hs
    obtain ⟨⟨_, hexists⟩, rfl⟩ := hs
    have hrole : inv.role ≠ .owner := h.oneOwner inv (lookup_some hfound).1 (by rw [horg]; rfl)
    refine h.frame rfl ?_
      (fun o _ x _ => holds_of_rows (fun r hr _ => List.mem_cons_of_mem _ hr) o x)
      h.rotating (h.users.cons (lookup_none hfree)) ?_ hinv hsep
    · intro other x
      constructor
      · rintro ⟨s, hs, hother, hx, howns⟩
        rcases List.mem_cons.mp hs with rfl | hs
        · exact absurd howns hrole
        · exact ⟨s, hs, hother, hx, howns⟩
      · rintro ⟨s, hs, howns⟩
        exact ⟨s, List.mem_cons_of_mem _ hs, howns⟩
    · intro s hs
      rcases List.mem_cons.mp hs with rfl | hs
      · simpa using hexists
      · exact h.homes s hs
  | none =>
    rw [horg] at hs
    simp only [Option.ite_none_left_eq_some, Bool.not_eq_true, Option.some.injEq] at hs
    obtain ⟨hfresh, rfl⟩ := hs
    have hrole : inv.role = .owner := hfounded inv hfound horg
    cases wrappedOrk with
    | none => simp [hrole] at howner
    | some k =>
      refine inv_found true k.blob h (by simpa using hfresh) hfree rfl ?_ rfl rfl hinv hsep
      rw [World.join, hrole]
      rfl

/-- The key is handed to somebody; an owner is handed the one in force. -/
theorem inv_handOverWrites {id : ℕ} (h : Inv w)
    (hforce : ∀ x ∈ lookup HandOver.id w.handOvers id, Owns w x.user x.org →
      w.generation x.org = some x.generation ∧ x.key.generation = x.generation)
    (hs : OrgKeys.step w (.handOverWrites id) = some w') : Inv w' ∧ Later w w' := by
  have hsep := separate_step h.separate hs
  obtain ⟨x, hx, hs⟩ := Option.bind_eq_some_iff.mp hs
  simp only [Option.ite_none_left_eq_some, Option.some.injEq] at hs
  obtain ⟨_, rfl⟩ := hs
  refine h.frame rfl ?_ ?_ h.rotating (h.users.updateWhere fun _ _ => rfl) ?_ (fun _ => .inl) hsep
  · intro other org
    constructor
    · rintro ⟨s, hs, hother, horg, hrole⟩
      rcases updateWhere_cases hs with ⟨hin, _⟩ | ⟨old, hin, _, rfl⟩
      · exact ⟨s, hin, hother, horg, hrole⟩
      · exact ⟨old, hin, hother, horg, hrole⟩
    · rintro ⟨s, hs, howns⟩
      exact ⟨_, mem_updateWhere.mpr ⟨s, hs, rfl⟩, by split <;> exact howns⟩
  · intro o ho user hown hhold
    obtain ⟨r, hr, href, horg, hkey, hlabel⟩ := hhold
    cases hp : (r.ref = .member x.user && r.org = x.org : Bool) with
    | false => exact ⟨r, mem_updateWhere_of_not hr hp, href, horg, hkey, hlabel⟩
    | true =>
      -- The owner's own row is written, and with the key in force.
      simp only [Bool.and_eq_true, decide_eq_true_eq] at hp
      have huser : user = x.user := Ref.member.inj (href.symm.trans hp.1)
      have hin : o.id = x.org := horg.symm.trans hp.2
      obtain ⟨hgen, hof⟩ := hforce x hx (huser ▸ hin ▸ hown)
      have heq : x.generation = o.generation := by
        rw [← hin, generation_eq h.orgIds ho] at hgen
        exact (Option.some.inj hgen).symm
      exact ⟨_, mem_updateWhere_of hr (by simp [hp]), href, horg, ⟨_, rfl, hof.trans heq⟩,
        congrArg some heq⟩
  · intro s hs
    rcases updateWhere_cases hs with ⟨hin, _⟩ | ⟨old, hin, _, rfl⟩
    · exact h.homes s hin
    · exact h.homes old hin

/-- A rotation has the members' check and update to come. -/
theorem check_mem_plan : .check .members ∈ plan := by
  decide

theorem write_mem_plan : .write .members ∈ plan := by
  decide

/-- A rotation begins that removes no owner. -/
theorem inv_rotateBegins {caller : ℕ} {req : RotateRequest} (h : Inv w)
    (hs : OrgKeys.step w (.rotateBegins caller req) = some w') : Inv w' ∧ Later w w' := by
  have hsep := separate_step h.separate hs
  obtain ⟨seat, _, hs⟩ := Option.bind_eq_some_iff.mp hs
  simp only [Option.ite_none_right_eq_some, Bool.and_eq_true, Bool.not_eq_eq_eq_not,
    Bool.not_true, decide_eq_true_eq, Option.some.injEq] at hs
  obtain ⟨⟨⟨hmay, _⟩, hbase⟩, rfl⟩ := hs
  refine h.frame rfl (fun _ _ => Iff.rfl) (fun _ _ _ _ hhold => hhold) ?_ h.users h.homes
    (fun _ => .inl) hsep
  intro rot hrot
  rcases List.mem_cons.mp hrot with rfl | hrot
  · refine ⟨hbase, (List.mem_tails _ _).mpr List.suffix_rfl, ?_,
      fun hpast => absurd check_mem_plan hpast,
      fun hpast => absurd write_mem_plan hpast⟩
    rintro user ⟨s, hs, rfl, horg, hrole⟩
    cases hgone : req.removeUserId with
    | none => simp [Rotation.removes, hgone]
    | some gone =>
      simp only [mayRotate, hgone, Option.all_some, Bool.and_eq_true] at hmay
      obtain ⟨_, hmay⟩ := hmay
      have hother : gone ≠ s.user := by
        rintro rfl
        rw [lookup_of_mem h.users hs] at hmay
        simp [mayRemove, hrole] at hmay
      simp [Rotation.removes, hgone, hother.symm]
  · exact h.rotating rot hrot

/-- The key of members is checked before it is written. -/
theorem members_checked : ∀ todo ∈ plan.tails, todo.tail ∈ plan.tails ∧
    (todo.head? = some (.write .members) → .check .members ∉ todo) := by
  decide

/-- The next statement of a rotation does what it should for the owner. -/
theorem rotates_runs {rot : Rotation} {phase : Phase} {rest : List Phase}
    {writes : List (Ref × Sealed)} (h : Inv w) (hrot : Rotates w rot)
    (htodo : rot.todo = phase :: rest) (hruns : rot.runs w phase = some writes) :
    Rotates w { rot with todo := rest, writes := writes } := by
  have hrow : ∀ user, Owns w user rot.org → ∃ r ∈ w.rows, r.ref = .member user ∧
      rot.sees r = true ∧ r.key.isSome = true := by
    intro user hown
    obtain ⟨o, _, hid, _, r, hr, href, horg, ⟨k, hk, _⟩, _⟩ := h.holds hrot.base hown
    refine ⟨r, hr, href, ?_, by rw [hk]; rfl⟩
    simp [Rotation.sees, horg, hid, href, hrot.spares user hown]
  have hstage := hrot.stage
  rw [htodo] at hstage
  refine ⟨hrot.base, ?_, hrot.spares, ?_, ?_⟩
  · exact (members_checked _ hstage).1
  · intro hpast user hown
    by_cases hphase : phase = .check .members
    · -- It has just checked that the owner's row, which it sees, is covered.
      subst hphase
      obtain ⟨r, hr, href, hsees, hkey⟩ := hrow user hown
      simp only [Rotation.runs, Option.ite_none_right_eq_some] at hruns
      have hcovers := List.all_eq_true.mp hruns.1 r hr
      simp only [hsees, href, Ref.kind, Kind.required, hkey, decide_true, Bool.and_self,
        Bool.not_true, Bool.false_or, Rotation.covers, Kind.mayStay, Bool.false_and,
        Bool.or_false] at hcovers
      obtain ⟨x, hx, heq⟩ := List.any_eq_true.mp hcovers
      exact ⟨x, hx, of_decide_eq_true heq⟩
    · refine hrot.supplied (fun hin => ?_) user hown
      rw [htodo] at hin
      rcases List.mem_cons.mp hin with heq | hin
      · exact hphase heq.symm
      · exact hpast hin
  · intro hpast user hown
    by_cases hphase : phase = .write .members
    · -- What it supplies matches the owner's row, and is written.
      subst hphase
      obtain ⟨r, hr, href, hsees, hkey⟩ := hrow user hown
      have hchecked : .check .members ∉ rot.todo := by
        rw [htodo]
        exact (members_checked _ hstage).2 rfl
      obtain ⟨x, hx, heq⟩ := hrot.supplied hchecked user hown
      simp only [Rotation.runs, Option.ite_none_right_eq_some, Option.some.injEq] at hruns
      obtain ⟨_, rfl⟩ := hruns
      refine ⟨x, List.mem_append_right _ (List.mem_filter.mpr ⟨hx, ?_⟩), heq⟩
      refine List.any_eq_true.mpr ⟨r, hr, ?_⟩
      simp [hsees, href, heq, Kind.updates, hkey]
    · have hkeeps : ∀ x ∈ rot.writes, x ∈ writes := by
        intro x hx
        cases phase with
        | check kind =>
          simp only [Rotation.runs, Option.ite_none_right_eq_some, Option.some.injEq] at hruns
          exact hruns.2 ▸ hx
        | write kind =>
          simp only [Rotation.runs, Option.ite_none_right_eq_some, Option.some.injEq] at hruns
          exact hruns.2 ▸ List.mem_append_left _ hx
      obtain ⟨x, hx, heq⟩ := hrot.written (fun hin => by
        rw [htodo] at hin
        rcases List.mem_cons.mp hin with heq | hin
        · exact hphase heq.symm
        · exact hpast hin) user hown
      exact ⟨x, hkeeps x hx, heq⟩

/-- A rotation runs its next statement, or is refused. -/
theorem inv_rotateGoesOn {id : ℕ} (h : Inv w)
    (hs : OrgKeys.step w (.rotateGoesOn id) = some w') : Inv w' ∧ Later w w' := by
  have hsep := separate_step h.separate hs
  obtain ⟨rot, hrot, hs⟩ := Option.bind_eq_some_iff.mp hs
  obtain ⟨hin, rfl⟩ := lookup_some hrot
  split at hs
  · cases hs
  · next phase rest htodo =>
    split at hs
    · cases hs
      exact h.frame rfl (fun _ _ => Iff.rfl) (fun _ _ _ _ hhold => hhold)
        (fun x hx => h.rotating x (mem_deleteWhere.mp hx).1) h.users h.homes (fun _ => .inl) hsep
    · next writes hruns =>
      cases hs
      refine h.frame rfl (fun _ _ => Iff.rfl) (fun _ _ _ _ hhold => hhold) ?_ h.users h.homes
        (fun _ => .inl) hsep
      intro x hx
      rcases updateWhere_cases hx with ⟨hold, _⟩ | ⟨old, hold, hid, rfl⟩
      · exact h.rotating x hold
      · obtain rfl := h.separate.ids.eq hold hin (of_decide_eq_true hid)
        exact rotates_runs h (h.rotating old hold) htodo hruns

/-- An organisation as a committed rotation leaves it. -/
def advanced (rot : Rotation) (o : Org) : Org :=
  if o.id = rot.org then
    { o with generation := rot.req.generation + 1, left := rot.req.unreadable }
  else o

@[simp] theorem advanced_id (rot : Rotation) (o : Org) : (advanced rot o).id = o.id := by
  unfold advanced
  split <;> rfl

/-- The tables as it leaves them. -/
structure Committed (rot : Rotation) (w w' : OrgKeys.World) : Prop where
  /-- Its organisation is at the next generation. -/
  orgs : w'.orgs = w.orgs.map (advanced rot)
  /-- Whom it removes is gone. -/
  seats : w'.seats = deleteWhere (fun s => s.org = rot.org && rot.removes (.member s.user)) w.seats
  /-- The others have what it wrote. -/
  rows : w'.rows = deleteWhere (fun r => r.org = rot.org && rot.removes r.ref)
    (w.rows.map rot.applied)
  invitations : w'.invitations = w.invitations
  rotations : w'.rotations = deleteWhere (fun r => r.id = rot.id) w.rotations

/-- A commit is of a rotation that is through its plan. -/
theorem committed_of_step {id : ℕ} (hs : OrgKeys.step w (.rotateCommits id) = some w') :
    ∃ rot ∈ w.rotations, rot.todo = [] ∧ Committed rot w w' := by
  obtain ⟨rot, hrot, hs⟩ := Option.bind_eq_some_iff.mp hs
  obtain ⟨hin, rfl⟩ := lookup_some hrot
  simp only [Option.ite_none_right_eq_some, Option.some.injEq] at hs
  obtain ⟨hdone, rfl⟩ := hs
  refine ⟨rot, hin, hdone, ?_, rfl, rfl, rfl, rfl⟩
  refine List.map_congr_left fun o _ => ?_
  simp only [decide_eq_true_eq]
  rfl

theorem Committed.generation {rot : Rotation} (hc : Committed rot w w') (org : ℕ) :
    w'.generation org =
      (lookup Org.id w.orgs org).map fun o => (advanced rot o).generation := by
  unfold World.generation lookup
  rw [hc.orgs, List.find?_map, Option.map_map]
  congr 2
  funext o
  simp

theorem Committed.isSome {rot : Rotation} (hc : Committed rot w w') {org : ℕ}
    (h : (w.generation org).isSome = true) : (w'.generation org).isSome = true := by
  rw [hc.generation, Option.isSome_map]
  rwa [World.generation, Option.isSome_map] at h

/-- The others have the generation they had. -/
theorem Committed.elsewhere {rot : Rotation} (hc : Committed rot w w') {org : ℕ}
    (hne : org ≠ rot.org) : w'.generation org = w.generation org := by
  rw [hc.generation, World.generation]
  cases hl : lookup Org.id w.orgs org with
  | none => rfl
  | some o => simp [advanced, (lookup_some hl).2, hne]

theorem Committed.owns {rot : Rotation} (hc : Committed rot w w') (hrotates : Rotates w rot)
    (user org : ℕ) : Owns w' user org ↔ Owns w user org := by
  unfold Owns
  rw [hc.seats]
  constructor
  · rintro ⟨s, hs, howns⟩
    exact ⟨s, (mem_deleteWhere.mp hs).1, howns⟩
  · rintro ⟨s, hs, rfl, rfl, hrole⟩
    refine ⟨s, mem_deleteWhere.mpr ⟨hs, ?_⟩, rfl, rfl, hrole⟩
    by_cases horg : s.org = rot.org
    · simp [hrotates.spares s.user ⟨s, hs, rfl, horg, hrole⟩]
    · simp [horg]

/-- An owner has the key in force, which for the organisation is a new one. -/
theorem Committed.holds {rot : Rotation} (hc : Committed rot w w') (hrotates : Rotates w rot)
    (hdone : rot.todo = []) {o : Org} {user : ℕ} (hown : Owns w user o.id)
    (hhold : Holds w o user) : Holds w' (advanced rot o) user := by
  obtain ⟨r, hr, href, horg, hkey, hlabel⟩ := hhold
  have hstays : rot.applied r ∈ w'.rows := by
    rw [hc.rows]
    refine mem_deleteWhere.mpr ⟨List.mem_map_of_mem hr, ?_⟩
    by_cases hid : o.id = rot.org
    · simp [href, hrotates.spares user (hid ▸ hown)]
    · simp [horg, hid]
  by_cases hid : o.id = rot.org
  · obtain ⟨x, hx, heq⟩ := hrotates.written (by rw [hdone]; exact nofun) user (hid ▸ hown)
    rcases applied_cases rot r with ⟨_, _, _, _, hnew, hnewLabel⟩ | ⟨_, hnone⟩
    · rw [advanced, if_pos hid]
      exact ⟨_, hstays, by rw [applied_ref, href], by rw [applied_org, horg], ⟨_, hnew, rfl⟩,
        hnewLabel (by rw [href]; rfl)⟩
    · exact absurd ⟨x, hx, heq.trans href.symm⟩ (hnone (horg.trans hid))
  · rw [advanced, if_neg hid]
    rcases applied_cases rot r with ⟨_, _, _, hr', _, _⟩ | ⟨hsame, _⟩
    · exact absurd (horg.symm.trans hr') hid
    · exact ⟨r, hsame ▸ hstays, href, horg, hkey, hlabel⟩

/-- A rotation commits, and the owner of its organisation has the new key. -/
theorem inv_rotateCommits {id : ℕ} (h : Inv w)
    (hs : OrgKeys.step w (.rotateCommits id) = some w') : Inv w' ∧ Later w w' := by
  have hsep := separate_step h.separate hs
  obtain ⟨rot, hin, hdone, hc⟩ := committed_of_step hs
  have hrotates := h.rotating rot hin
  have howns := hc.owns hrotates
  refine ⟨⟨?_, ?_, ?_, hc.invitations ▸ h.oneOwner, hsep, ?_, ?_⟩,
    fun user org ho => .inl ((howns user org).mp ho), fun _ => hc.isSome⟩
  · have hids : (w.orgs.map (advanced rot)).map Org.id = w.orgs.map Org.id := by
      rw [List.map_map]
      exact List.map_congr_left fun o _ => advanced_id rot o
    rw [hc.orgs, KeyUnique, hids]
    exact h.orgIds
  · rw [hc.seats]
    exact h.users.deleteWhere
  · intro s hs
    rw [hc.seats] at hs
    exact hc.isSome (h.homes s (mem_deleteWhere.mp hs).1)
  · intro o' ho'
    rw [hc.orgs] at ho'
    obtain ⟨o, ho, rfl⟩ := List.mem_map.mp ho'
    obtain ⟨user, hown, honly, hhold⟩ := h.owned o ho
    rw [advanced_id]
    exact ⟨user, (howns user o.id).mpr hown,
      fun other hother => honly other ((howns other o.id).mp hother),
      hc.holds hrotates hdone hown hhold⟩
  · intro x hx
    rw [hc.rotations] at hx
    obtain ⟨hxin, hxid⟩ := mem_deleteWhere.mp hx
    have hne : x.org ≠ rot.org := by
      intro heq
      obtain rfl := h.separate.orgs.eq hxin hin heq
      simp at hxid
    exact (h.rotating x hxin).congr (hc.elsewhere hne) fun user => (howns user x.org).mp

/-- A request about keys, if it meets the guard. -/
theorem inv_keys {server : Server} (h : Inv server.keys) (hg : Founded server (.keys a))
    (hs : OrgKeys.step server.keys a = some w') : Inv w' ∧ Later server.keys w' := by
  have hsep := separate_step h.separate hs
  have hinv : ∀ i ∈ w'.invitations, i ∈ server.keys.invitations ∨
      (i.org.isSome = true → i.role ≠ .owner) := fun _ => step_invitations hs
  by_cases ha : a.aboutRows = true
  · obtain ⟨horgs, hseats, _, _, hrots, _⟩ := step_aboutRows ha hs
    refine h.frame horgs (owns_of_seats hseats) (fun o _ user _ => ?_)
      (fun rot hrot => h.rotating rot (hrots ▸ hrot)) (hseats ▸ h.users)
      (fun s hs => h.homes s (hseats ▸ hs)) hinv hsep
    exact holds_of_rows (fun r => member_stays ha hs) o user
  cases a with
  | signup user org wrappedOrk =>
    simp only [OrgKeys.step, signup, Option.ite_none_left_eq_some, Bool.or_eq_true, not_or,
      Bool.not_eq_true, Option.some.injEq] at hs
    obtain ⟨⟨⟨hfree, _⟩, hfresh⟩, rfl⟩ := hs
    exact inv_found true wrappedOrk h (by simpa using hfresh) (by simpa using hfree) rfl rfl rfl
      rfl hinv hsep
  | invite caller role =>
    obtain ⟨_, _, hs⟩ := Option.bind_eq_some_iff.mp hs
    simp only [Option.ite_none_left_eq_some, Option.some.injEq] at hs
    obtain ⟨_, rfl⟩ := hs
    exact h.frame rfl (fun _ _ => Iff.rfl) (fun _ _ _ _ hhold => hhold) h.rotating h.users h.homes
      hinv hsep
  | cliInvite org role =>
    simp only [OrgKeys.step, cliInvite, Option.ite_none_left_eq_some, Option.some.injEq] at hs
    obtain ⟨_, rfl⟩ := hs
    exact h.frame rfl (fun _ _ => Iff.rfl) (fun _ _ _ _ hhold => hhold) h.rotating h.users h.homes
      hinv hsep
  | enroll invitation user newOrg wrappedOrk => exact inv_enroll h hg hs
  | handOverReads caller user wrappedOrk =>
    obtain ⟨_, _, hs⟩ := Option.bind_eq_some_iff.mp hs
    simp only [Option.ite_none_right_eq_some, Option.map_eq_some_iff] at hs
    obtain ⟨_, _, _, rfl⟩ := hs
    exact h.frame rfl (fun _ _ => Iff.rfl) (fun _ _ _ _ hhold => hhold) h.rotating h.users h.homes
      hinv hsep
  | handOverWrites id => exact inv_handOverWrites h hg hs
  | rotateBegins caller req => exact inv_rotateBegins h hs
  | rotateGoesOn id => exact inv_rotateGoesOn h hs
  | rotateCommits id => exact inv_rotateCommits h hs
  | rotateFails id =>
    cases hs
    exact h.frame rfl (fun _ _ => Iff.rfl) (fun _ _ _ _ hhold => hhold)
      (fun x hx => h.rotating x (mem_deleteWhere.mp hx).1) h.users h.homes hinv hsep
  | _ => exact absurd rfl ha

/-- What the runs keep of the server. -/
structure Kept (server : Server) : Prop where
  keys : Inv server.keys
  /-- A role change makes no owner, and is of somebody who is none. -/
  changes : ∀ c ∈ server.changes, c.role ≠ .owner ∧ ¬ Owns server.keys c.user c.org ∧
    (server.keys.generation c.org).isSome = true

theorem kept_setRoleWrites {server server' : Server} {id : ℕ} (h : Kept server)
    (hs : setRoleWrites server id = some server') : Kept server' := by
  obtain ⟨c, hc, hs⟩ := Option.bind_eq_some_iff.mp hs
  simp only [Option.ite_none_left_eq_some, Option.some.injEq] at hs
  obtain ⟨_, rfl⟩ := hs
  obtain ⟨hrole, hnot, _⟩ := h.changes c (lookup_some hc).1
  have howns : ∀ user org, Owns { server.keys with
      seats := updateWhere (fun s => s.user = c.user && s.org = c.org)
        (fun s => { s with role := c.role }) server.keys.seats } user org ↔
      Owns server.keys user org := by
    intro user org
    constructor
    · rintro ⟨s, hs, howns⟩
      rcases updateWhere_cases hs with ⟨hin, _⟩ | ⟨old, _, _, rfl⟩
      · exact ⟨s, hin, howns⟩
      · exact absurd howns.2.2 hrole
    · rintro ⟨s, hs, huser, horg, howner⟩
      refine ⟨s, mem_updateWhere_of_not hs ?_, huser, horg, howner⟩
      cases hp : (s.user = c.user && s.org = c.org : Bool) with
      | false => rfl
      | true =>
        simp only [Bool.and_eq_true, decide_eq_true_eq] at hp
        exact absurd ⟨s, hs, hp.1, hp.2, howner⟩ hnot
  refine ⟨?_, ?_⟩
  · refine (Inv.frame h.keys ?_ howns (fun _ _ _ _ hhold => hhold) h.keys.rotating
      (h.keys.users.updateWhere fun _ _ => rfl) ?_ (fun _ => .inl) ?_).1
    · rfl
    · intro s hs
      rcases updateWhere_cases hs with ⟨hin, _⟩ | ⟨old, hin, _, rfl⟩
      · exact h.keys.homes s hin
      · exact h.keys.homes old hin
    · exact h.keys.separate.same rfl (Nat.le_refl _)
  · intro d hd
    obtain ⟨hdrole, hdnot, hdorg⟩ := h.changes d (mem_deleteWhere.mp hd).1
    exact ⟨hdrole, fun hown => hdnot ((howns d.user d.org).mp hown), hdorg⟩

/-- One is read, of somebody who is no owner. -/
theorem kept_setRoleReads {server server' : Server} {caller user : ℕ} {role : Role}
    (h : Kept server) (hs : setRoleReads server caller user role = some server') :
    Kept server' := by
  obtain ⟨s, hcaller, hs⟩ := Option.bind_eq_some_iff.mp hs
  simp only [Option.ite_none_left_eq_some, Bool.or_eq_true, decide_eq_true_eq, not_or] at hs
  obtain ⟨⟨hrole, _⟩, hs⟩ := hs
  obtain ⟨t, ht, hs⟩ := Option.bind_eq_some_iff.mp hs
  simp only [Option.ite_none_left_eq_some, not_or, Option.some.injEq] at hs
  obtain ⟨⟨⟨hmember, _⟩, _⟩, rfl⟩ := hs
  obtain ⟨hin, huser⟩ := lookup_some (Option.filter_eq_some_iff.mp ht).1
  refine ⟨h.keys, fun c hc => ?_⟩
  rcases List.mem_cons.mp hc with rfl | hc
  · refine ⟨hrole, ?_, h.keys.homes s (lookup_some (Option.filter_eq_some_iff.mp hcaller).1).1⟩
    rintro ⟨x, hx, hxuser, _, howner⟩
    obtain rfl := h.keys.users.eq hx hin (hxuser.trans huser.symm)
    exact hmember howner
  · exact h.changes c hc

/-- Every step that meets the guard keeps it. -/
theorem kept_step : Preserved step Founded Kept := by
  intro server a server' h hg hs
  cases a with
  | keys label =>
    obtain ⟨keys, hkeys, rfl⟩ := Option.map_eq_some_iff.mp hs
    obtain ⟨hinv, hlater⟩ := inv_keys h.keys hg hkeys
    refine ⟨hinv, fun c hc => ?_⟩
    obtain ⟨hrole, hnot, horg⟩ := h.changes c hc
    refine ⟨hrole, fun hown => ?_, hlater.orgs c.org horg⟩
    rcases hlater.owns c.user c.org hown with hold | hnone
    · exact hnot hold
    · rw [hnone] at horg
      cases horg
  | setRoleReads caller user role => exact kept_setRoleReads h hs
  | setRoleWrites id => exact kept_setRoleWrites h hs
  | setRoleLost id =>
    cases hs
    exact ⟨h.keys, fun c hc => h.changes c (mem_deleteWhere.mp hc).1⟩

/-- In every such run every organisation has one owner, who has its key. -/
theorem every_org_owned {server : Server} (hr : Reached init step Founded server) :
    EveryOrgOwned server.keys := by
  have h : Kept server := hr.invariant Kept (fun _ hi => hi ▸ ⟨inv_empty, nofun⟩) kept_step
  intro o ho
  obtain ⟨user, ⟨s, hs, rfl, horg, hrole⟩, honly, hhold⟩ := h.keys.owned o ho
  refine ⟨s, hs, horg, hrole, fun t ht htorg htrole => ?_, hhold⟩
  exact h.keys.users.eq ht hs (honly t.user ⟨t, ht, rfl, htorg, htrole⟩)

/-- A rotation for these members, that removes somebody. -/
def without (gone : ℕ) (users : List ℕ) : RotateRequest :=
  { removeUserId := some gone
    members := users.map fun user => (user, sealedKey)
    proxies := []
    generation := 1
    cookieKeys := []
    bundles := []
    credentials := []
    shares := []
    unreadable := [] }

/-- An organisation from the command line, whose owner invites two members, makes one of
them an admin, lets them in and removes the other. -/
def grown : List Act :=
  ([.cliInvite none .owner, .enroll 0 1 5 (some ⟨sealedKey, 1⟩), .invite 1 .member,
      .enroll 1 2 0 none, .invite 1 .manager, .enroll 2 3 0 none].map Act.keys) ++
    [.setRoleReads 1 2 .admin, .setRoleWrites 0] ++
    (.handOverReads 1 2 ⟨sealedKey, 1⟩ :: .handOverWrites 3 ::
      wholeRotation 4 2 (without 3 [1, 2])).map Act.keys

/-- The organisation is owned, at its second key. -/
theorem every_org_owned_grown :
    (after grown).keys.orgs.map Org.generation = [2] ∧ EveryOrgOwned (after grown).keys := by
  have hempty : Reached init step Founded empty := .start rfl
  have hgrown : Reached init step Founded (after grown) :=
    hempty.run grown (by decide) (by decide)
  exact ⟨by decide, every_org_owned hgrown⟩

/-- `fury-server invite --org … --role member`, and somebody enrols on it. -/
def ownerless : List Act := [.keys (.cliInvite none .member), .keys (.enroll 0 1 5 none)]

/-- The organisation it creates has no owner. -/
theorem organisation_without_owner :
    run step empty ownerless = some (after ownerless) ∧ ¬ EveryOrgOwned (after ownerless).keys := by
  refine ⟨by decide, fun h => ?_⟩
  obtain ⟨s, hs, _, hrole, _⟩ := h ⟨5, 1, []⟩ (by decide)
  have hmembers : ∀ s ∈ (after ownerless).keys.seats, s.role = .member := by decide
  rw [hmembers s hs] at hrole
  cases hrole

end FuryBrowser.OrgOwner
