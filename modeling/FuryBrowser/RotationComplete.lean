import Mathlib.Data.List.Infix
import FuryBrowser.OrgKeySteps

/-!
# What a rotation leaves behind

A rotation reads each table under its lock and refuses to leave a row of it
under the old key, except for proxies, which it rewrites as they are supplied.
The requests that store keys beside it do not look at the generation, except for
an upload that names the one its key came from.

In runs in which rotations supply every proxy, and no other request stores a key
of an older generation or brings a row into use behind a rotation's check, every
key in use is of the generation in force or was listed as unreadable.
-/

namespace FuryBrowser.RotationComplete

open GuardedRuns RowTable OrgKeys

/-- Whether the organisation still uses what a row's key opens. -/
def inUse (r : Row) : Bool :=
  match r.ref with
  | .proxy _ => r.key.isSome && !r.deleted
  | .bundle _ => r.key.any fun k => k.blob.prefixed
  | _ => r.key.isSome

/-- The key of a row is not older than its organisation's. -/
def Current (w : World) (r : Row) : Prop :=
  ∀ g ∈ w.generation r.org, ∀ k ∈ r.key, g ≤ k.generation

instance (w : World) (r : Row) : Decidable (Current w r) := by
  unfold Current
  infer_instance

/-- Every key in use is current, or was listed by the last rotation. -/
def Complete (w : World) : Prop :=
  ∀ r ∈ w.rows, inUse r = true → Current w r ∨
    ∃ o ∈ w.orgs, o.id = r.org ∧ r.ref.listed o.left = true

instance (w : World) : Decidable (Complete w) := by
  unfold Complete
  infer_instance

/-- A row that is there, with a key put into it. -/
def edited (w : World) (ref : Ref) (key : Key) : Option Row :=
  (lookup Row.ref w.rows ref).map fun r => { r with key := some key }

/-- A row with a key put into it, or a new one with the key. -/
def put (w : World) (ref : Ref) (org : ℕ) (key : Key) : Row :=
  (edited w ref key).getD ⟨ref, org, some key, none, false⟩

/-- The row a request other than a rotation stores a key in. -/
def stored (w : World) : Label → Option Row
  | .enroll invitation user _ wrappedOrk =>
    (lookup Invitation.id w.invitations invitation).bind fun inv =>
      inv.org.bind fun org => wrappedOrk.map fun k => put w (.member user) org k
  | .handOverWrites id =>
    (lookup HandOver.id w.handOvers id).bind fun h => edited w (.member h.user) h.key
  | .createProxy org id wrappedDek => some (put w (.proxy id) org wrappedDek)
  | .editProxy id wrappedDek => edited w (.proxy id) wrappedDek
  | .createCredential profile id wrappedDek =>
    (w.orgOf profile).map fun org => put w (.credential id) org wrappedDek
  | .editCredential id wrappedDek => edited w (.credential id) wrappedDek
  | .shareProfile profile user wrappedKey =>
    (w.orgOf profile).map fun org => put w (.share profile user) org wrappedKey
  | .uploadBundle profile id wrappedDek _ =>
    (w.orgOf profile).map fun org => put w (.bundle id) org wrappedDek
  | _ => none

/-- The statement from which on a rotation no longer notices new rows of a
table: its check, or for proxies their update. -/
def gate : Kind → Phase
  | .proxies => .write .proxies
  | kind => .check kind

/-- A rotation of the organisation no longer notices new rows of the table. -/
def past (w : World) (org : ℕ) (kind : Kind) : Bool :=
  w.rotations.any fun rot => rot.org = org && !decide (gate kind ∈ rot.todo)

/-- A key that is stored is current, and its row does not come into use behind
a rotation's back. -/
def Timely (w : World) (r : Row) : Prop :=
  Current w r ∧
    (past w r.org r.ref.kind = false ∨
      ∃ old ∈ w.rows, old.ref = r.ref ∧ old.org = r.org ∧ inUse old = true)

instance (w : World) (r : Row) : Decidable (Timely w r) := by
  unfold Timely
  infer_instance

/-- A rotation that is about to update the proxies supplies every live one. -/
def ProxiesSupplied (w : World) (rot : Rotation) : Prop :=
  rot.todo.head? = some (.write .proxies) → ∀ r ∈ w.rows, rot.sees r = true →
    r.ref.kind = .proxies → inUse r = true →
      rot.covers .proxies r = true ∨ r.ref.listed rot.req.unreadable = true

instance (w : World) (rot : Rotation) : Decidable (ProxiesSupplied w rot) := by
  unfold ProxiesSupplied
  infer_instance

/-- Rotations supply the proxies, headers name the generation of their key, and
everything else that stores a key is timely. -/
def Careful (w : World) (a : Label) : Prop :=
  match a with
  | .rotateGoesOn id => ∀ rot ∈ lookup Rotation.id w.rotations id, ProxiesSupplied w rot
  | .uploadBundle _ _ wrappedDek (some keyGeneration) => keyGeneration ≤ wrappedDek.generation
  | a => ∀ r ∈ stored w a, inUse r = true → Timely w r

instance : DecidableRel Careful := fun w a => by
  rcases a with _ | _
  case uploadBundle _ _ _ keyGeneration =>
    rcases keyGeneration with _ | _ <;> dsimp only [Careful] <;> infer_instance
  all_goals
    dsimp only [Careful]
    infer_instance

/-- An accepted request stores a current key. -/
def StoresCurrent (w : World) (a : Label) : Prop :=
  ∀ r ∈ stored w a, inUse r = true → Current w r

/-- What a rotation in flight has made sure of. -/
structure Covering (w : World) (rot : Rotation) : Prop where
  /-- It rotates the generation it was computed against. -/
  base : w.generation rot.org = some rot.req.generation
  stage : rot.todo ∈ plan.tails
  /-- Past a table's check, each key in use is listed, written, or supplied and
  about to be written. -/
  covered : ∀ r ∈ w.rows, rot.sees r = true → inUse r = true → gate r.ref.kind ∉ rot.todo →
    r.ref.listed rot.req.unreadable = true ∨ (∃ s ∈ rot.writes, s.1 = r.ref) ∨
      (.write r.ref.kind ∈ rot.todo ∧ ∃ s ∈ rot.req.supplied r.ref.kind, s.1 = r.ref)

/-- What careful runs keep. -/
structure Inv (w : World) : Prop where
  /-- Organisations have their own ids. -/
  orgIds : KeyUnique Org.id w.orgs
  /-- Rows have their own ids. -/
  refs : KeyUnique Row.ref w.rows
  /-- A row's organisation exists. -/
  orgs : ∀ r ∈ w.rows, (w.generation r.org).isSome = true
  /-- Rotations are separate. -/
  separate : Separate w
  /-- Rotations cover what they have passed. -/
  covering : ∀ rot ∈ w.rotations, Covering w rot
  /-- Every key in use is current or listed. -/
  complete : Complete w

theorem inv_empty : Inv empty where
  orgIds := keyUnique_nil
  refs := keyUnique_nil
  orgs := List.forall_mem_nil _
  separate := separate_empty
  covering := List.forall_mem_nil _
  complete := List.forall_mem_nil _

/-- Statements come in the order of the plan: a table's update is still to come
after its check, its check is over before its update, and proxies have none. -/
theorem plan_order : ∀ todo ∈ plan.tails, ∀ kind,
    (todo.head? = some (.check kind) → kind ≠ .proxies ∧ .write kind ∈ todo.tail) ∧
      (todo.head? = some (.write kind) → kind ≠ .proxies → gate kind ∉ todo) ∧
      todo.tail ∈ plan.tails := by
  intro todo htodo kind
  cases kind <;> revert todo <;> decide

theorem gate_mem_plan (kind : Kind) : gate kind ∈ plan := by
  cases kind <;> decide

theorem generation_of_mem {w : World} (h : KeyUnique Org.id w.orgs) {o : Org}
    (ho : o ∈ w.orgs) : w.generation o.id = some o.generation := by
  unfold World.generation
  rw [lookup_of_mem h ho]
  rfl

theorem generation_isSome {w : World} {org : ℕ} {o : Org} (ho : o ∈ w.orgs) (hid : o.id = org) :
    (w.generation org).isSome = true := by
  unfold World.generation
  cases hl : lookup Org.id w.orgs org with
  | none => exact absurd hid (lookup_none hl o ho)
  | some _ => rfl

/-- A row in use that is not there yet comes in time. -/
def Fits (w : World) (r : Row) : Prop := inUse r = true → Timely w r

/-- Rows may change as long as each one in use was there or comes in time. -/
theorem Inv.withRows {w w' : World} (h : Inv w) (horgs : w'.orgs = w.orgs)
    (hrots : w'.rotations = w.rotations) (hnext : w.nextId ≤ w'.nextId)
    (hrefs : KeyUnique Row.ref w'.rows)
    (hexists : ∀ r ∈ w'.rows, (w.generation r.org).isSome = true)
    (hnew : ∀ r ∈ w'.rows, r ∈ w.rows ∨ Fits w r) : Inv w' := by
  have hgen : w'.generation = w.generation := by
    funext org
    unfold World.generation
    rw [horgs]
  refine
    { orgIds := horgs ▸ h.orgIds
      refs := hrefs
      orgs := fun r hr => by rw [hgen]; exact hexists r hr
      separate := h.separate.same hrots hnext
      covering := fun rot hrot => ?_
      complete := fun r hr huse => ?_ }
  · have hold := h.covering rot (hrots ▸ hrot)
    refine ⟨by rw [hgen]; exact hold.base, hold.stage, fun r hr hsees huse hgate => ?_⟩
    rcases hnew r hr with hin | hfits
    · exact hold.covered r hin hsees huse hgate
    · rcases (hfits huse).2 with hpast | ⟨old, hmem, href, horg, hused⟩
      · have horg : r.org = rot.org := by simpa using (Bool.and_eq_true_iff.mp hsees).1
        have hnot := (List.any_eq_false.mp hpast) rot (hrots ▸ hrot)
        simp [horg, hgate] at hnot
      · have hsees' : rot.sees old = true := by
          unfold Rotation.sees at hsees ⊢
          rw [horg, href]
          exact hsees
        have hcov := hold.covered old hmem hsees' hused (by rw [href]; exact hgate)
        rw [href] at hcov
        exact hcov
  · rcases hnew r hr with hin | hfits
    · rcases h.complete r hin huse with hcur | hlisted
      · left
        unfold Current
        rw [hgen]
        exact hcur
      · exact .inr (horgs ▸ hlisted)
    · left
      unfold Current
      rw [hgen]
      exact (hfits huse).1

/-- Nothing else about the server matters to keys in use. -/
theorem Inv.same {w w' : World} (h : Inv w) (horgs : w'.orgs = w.orgs)
    (hrows : w'.rows = w.rows) (hrots : w'.rotations = w.rotations)
    (hnext : w.nextId ≤ w'.nextId) : Inv w' := by
  refine h.withRows horgs hrots hnext ?_ ?_ ?_ <;> rw [hrows]
  · exact h.refs
  · exact h.orgs
  · exact fun _ hr => .inl hr

/-- A row can be put in when it comes in time. -/
theorem Inv.insert {w w' : World} (h : Inv w) {ref : Ref} {org : ℕ} {key : Option Key}
    {label : Option ℕ} (hnew : w.has ref = false) (hexists : (w.generation org).isSome = true)
    (hfits : Fits w ⟨ref, org, key, label, false⟩) (horgs : w'.orgs = w.orgs)
    (hrots : w'.rotations = w.rotations) (hnext : w.nextId ≤ w'.nextId)
    (hrows : w'.rows = ⟨ref, org, key, label, false⟩ :: w.rows) : Inv w' := by
  have hnone : lookup Row.ref w.rows ref = none := by
    simpa [World.has] using hnew
  refine h.withRows horgs hrots hnext ?_ ?_ ?_ <;> rw [hrows]
  · exact h.refs.cons (lookup_none hnone)
  · intro r hr
    rcases List.mem_cons.mp hr with rfl | hr
    · exact hexists
    · exact h.orgs r hr
  · intro r hr
    rcases List.mem_cons.mp hr with rfl | hr
    · exact .inr hfits
    · exact .inl hr

/-- A key can be put into a row when it comes in time. -/
theorem Inv.update {w w' : World} (h : Inv w) {p : Row → Bool} {f : Row → Row}
    (href : ∀ r, (f r).ref = r.ref) (horg : ∀ r, (f r).org = r.org)
    (hfits : ∀ r ∈ w.rows, p r = true → Fits w (f r)) (horgs : w'.orgs = w.orgs)
    (hrots : w'.rotations = w.rotations) (hnext : w.nextId ≤ w'.nextId)
    (hrows : w'.rows = updateWhere p f w.rows) : Inv w' := by
  refine h.withRows horgs hrots hnext ?_ ?_ ?_ <;> rw [hrows]
  · exact h.refs.updateWhere fun r _ => href r
  · intro r hr
    rcases updateWhere_cases hr with ⟨hin, _⟩ | ⟨old, hin, _, rfl⟩
    · exact h.orgs r hin
    · rw [horg]
      exact h.orgs old hin
  · intro r hr
    rcases updateWhere_cases hr with ⟨hin, _⟩ | ⟨old, hin, hp, rfl⟩
    · exact .inl hin
    · exact .inr (hfits old hin hp)

/-- A new organisation has no rows and no rotation. -/
theorem Inv.found {w : World} (h : Inv w) {org : ℕ} (hfresh : w.generation org = none) :
    Inv { w with orgs := ⟨org, 1, []⟩ :: w.orgs } := by
  have hother : ∀ x, (w.generation x).isSome = true →
      World.generation { w with orgs := ⟨org, 1, []⟩ :: w.orgs } x = w.generation x := by
    intro x hx
    have hne : org ≠ x := by
      rintro rfl
      rw [hfresh] at hx
      cases hx
    simp [World.generation, lookup, hne]
  have hbase : ∀ rot ∈ w.rotations, (w.generation rot.org).isSome = true := by
    intro rot hrot
    rw [(h.covering rot hrot).base]
    rfl
  refine
    { orgIds := h.orgIds.cons fun o ho heq => ?_
      refs := h.refs
      orgs := fun r hr => by rw [hother _ (h.orgs r hr)]; exact h.orgs r hr
      separate := h.separate.same rfl (Nat.le_refl _)
      covering := fun rot hrot => ?_
      complete := fun r hr huse => ?_ }
  · have hsome := generation_isSome ho heq
    rw [hfresh] at hsome
    cases hsome
  · have hold := h.covering rot hrot
    exact ⟨(hother _ (hbase rot hrot)).trans hold.base, hold.stage, hold.covered⟩
  · rcases h.complete r hr huse with hcur | ⟨o, ho, hrest⟩
    · left
      unfold Current
      rw [hother _ (h.orgs r hr)]
      exact hcur
    · exact .inr ⟨o, List.mem_cons_of_mem _ ho, hrest⟩

/-- The first key of a new organisation fits. -/
theorem fits_first {w : World} (h : Inv w) {org : ℕ} (hfresh : w.generation org = none)
    {r : Row} (horg : r.org = org) (hkey : ∀ k ∈ r.key, k.generation = 1) :
    Fits { w with orgs := ⟨org, 1, []⟩ :: w.orgs } r := by
  refine fun _ => ⟨fun g hg k hk => ?_, .inl ?_⟩
  · rw [horg] at hg
    have hone : g = 1 := by
      simpa [World.generation, lookup, List.find?_cons] using hg.symm
    have hkeyed := hkey k hk
    omega
  · refine List.any_eq_false.mpr fun rot hrot => ?_
    have hne : rot.org ≠ org := by
      intro heq
      have hbase := (h.covering rot hrot).base
      rw [heq, hfresh] at hbase
      cases hbase
    simp [horg, hne]

/-- A key that is stored in a row of its own fits because its request does. -/
theorem fits_put {w : World} {ref : Ref} {org : ℕ} {key : Key} {label : Option ℕ}
    (hnew : w.has ref = false)
    (hcareful : inUse (put w ref org key) = true → Timely w (put w ref org key)) :
    Fits w ⟨ref, org, some key, label, false⟩ := by
  have hnone : lookup Row.ref w.rows ref = none := by
    simpa [World.has] using hnew
  have hput : put w ref org key = ⟨ref, org, some key, none, false⟩ := by
    unfold put edited
    rw [hnone]
    rfl
  rw [hput] at hcareful
  intro huse
  have huse' : inUse ⟨ref, org, some key, none, false⟩ = true := by
    cases ref <;> exact huse
  exact hcareful huse'

/-- A key that is put into a row that is there fits because its request does. -/
theorem fits_edited {w : World} (h : Inv w) {ref : Ref} {key : Key} {r : Row}
    (hr : r ∈ w.rows) (href : r.ref = ref) {label : Option ℕ}
    (hcareful : ∀ x ∈ edited w ref key, inUse x = true → Timely w x) :
    Fits w { r with key := some key, label := label } := by
  have hedited : edited w ref key = some { r with key := some key } := by
    unfold edited
    rw [← href, lookup_of_mem h.refs hr]
    rfl
  intro huse
  have huse' : inUse { r with key := some key } = true := by
    unfold inUse at huse ⊢
    exact huse
  have htimely : Timely w { r with key := some key } := hcareful _ hedited huse'
  exact htimely

/-- A row without a key is not in use. -/
theorem fits_empty {w : World} {ref : Ref} {org : ℕ} {label : Option ℕ} {deleted : Bool} :
    Fits w ⟨ref, org, none, label, deleted⟩ := by
  intro huse
  cases ref <;> cases huse

/-- No rotation is past anything in an organisation that has none. -/
theorem past_of_not_rotating {w : World} {org : ℕ} {kind : Kind} (h : w.rotating org = false) :
    past w org kind = false := by
  refine List.any_eq_false.mpr fun rot hrot => ?_
  have hne := List.any_eq_false.mp h rot hrot
  simp only [decide_eq_true_eq] at hne
  simp [hne]

section Requests

variable {w w' : World}

theorem inv_signup (h : Inv w) {user org : ℕ} {wrappedOrk : Sealed}
    (hs : signup w user org wrappedOrk = some w') : Inv w' := by
  simp only [signup, Bool.or_eq_true, not_or, Option.ite_none_left_eq_some,
    Bool.not_eq_true, Option.some.injEq] at hs
  obtain ⟨⟨⟨_, hhas⟩, hfresh⟩, rfl⟩ := hs
  have hnone : w.generation org = none := by simpa using hfresh
  refine (h.found hnone).insert hhas ?_ (fits_first h hnone rfl ?_) rfl rfl (Nat.le_refl _) rfl
  · exact generation_isSome List.mem_cons_self rfl
  · rintro k ⟨rfl⟩
    rfl

theorem inv_completeEnrollment (h : Inv w) {invitation user newOrg : ℕ} {wrappedOrk : Option Key}
    (hcareful : ∀ r ∈ stored w (.enroll invitation user newOrg wrappedOrk),
      inUse r = true → Timely w r)
    (hs : completeEnrollment w invitation user newOrg wrappedOrk = some w') : Inv w' := by
  obtain ⟨inv, hinv, hs⟩ := Option.bind_eq_some_iff.mp hs
  simp only [Option.ite_none_left_eq_some, Bool.or_eq_true, not_or, Bool.not_eq_true] at hs
  obtain ⟨⟨_, hhas⟩, hs⟩ := hs
  cases horg : inv.org with
  | some org =>
    simp only [horg, Option.ite_none_left_eq_some, not_or, Bool.not_eq_true,
      Option.some.injEq] at hs
    obtain ⟨⟨_, hsome⟩, rfl⟩ := hs
    refine h.insert hhas ?_ ?_ rfl rfl (Nat.le_refl _) rfl
    · simpa [Option.isNone_eq_false_iff] using hsome
    · cases wrappedOrk with
      | none => exact fits_empty
      | some k => exact fits_put hhas (hcareful _ (by simp [stored, hinv, horg]))
  | none =>
    simp only [horg, Option.ite_none_left_eq_some, Bool.not_eq_true, Option.some.injEq] at hs
    obtain ⟨hfresh, rfl⟩ := hs
    have hnone : w.generation newOrg = none := by simpa using hfresh
    refine (h.found hnone).insert hhas ?_ (fits_first h hnone rfl ?_) rfl rfl
      (Nat.le_refl _) rfl
    · exact generation_isSome List.mem_cons_self rfl
    · intro k hk
      obtain ⟨_, _, rfl⟩ := Option.map_eq_some_iff.mp hk
      rfl

theorem inv_handOverWrites (h : Inv w) {id : ℕ}
    (hcareful : ∀ r ∈ stored w (.handOverWrites id), inUse r = true → Timely w r)
    (hs : handOverWrites w id = some w') : Inv w' := by
  obtain ⟨o, ho, hs⟩ := Option.bind_eq_some_iff.mp hs
  simp only [Option.ite_none_left_eq_some, Option.some.injEq] at hs
  obtain ⟨_, rfl⟩ := hs
  refine h.update (p := fun r => r.ref = .member o.user && r.org = o.org)
    (f := fun r => { r with key := some o.key, label := some o.generation })
    (fun _ => rfl) (fun _ => rfl) (fun r hr hp => ?_) rfl rfl (Nat.le_refl _) rfl
  have href : r.ref = .member o.user := by
    simpa using (Bool.and_eq_true_iff.mp hp).1
  exact fits_edited h hr href fun x hx => hcareful x (by simpa [stored, ho] using hx)

/-- A key put into a row that is there. -/
theorem inv_setKey (h : Inv w) {ref : Ref} {key : Key}
    (hcareful : ∀ x ∈ edited w ref key, inUse x = true → Timely w x) :
    Inv (w.setKey ref key) := by
  refine h.update (p := fun r => r.ref = ref) (f := fun r => { r with key := some key })
    (fun _ => rfl) (fun _ => rfl) (fun r hr hp => ?_) rfl rfl (Nat.le_refl _) rfl
  exact fits_edited h hr (by simpa using hp) hcareful

/-- The organisation of a profile exists. -/
theorem generation_of_orgOf (h : Inv w) {profile org : ℕ} (ho : w.orgOf profile = some org) :
    (w.generation org).isSome = true := by
  obtain ⟨r, hr, rfl⟩ := Option.map_eq_some_iff.mp ho
  exact h.orgs r (lookup_some hr).1

theorem inv_removeRow (h : Inv w) {ref : Ref} (hs : removeRow w ref = some w') : Inv w' := by
  simp only [removeRow, Option.ite_none_left_eq_some, Option.some.injEq] at hs
  obtain ⟨_, rfl⟩ := hs
  refine h.withRows rfl rfl (Nat.le_refl _) h.refs.deleteWhere ?_ ?_
  · exact fun r hr => h.orgs r (mem_deleteWhere.mp hr).1
  · exact fun r hr => .inl (mem_deleteWhere.mp hr).1

theorem inv_deleteProxy (h : Inv w) {id : ℕ} (hs : deleteProxy w id = some w') : Inv w' := by
  simp only [deleteProxy, Option.ite_none_left_eq_some, Option.some.injEq] at hs
  obtain ⟨_, rfl⟩ := hs
  refine h.update (p := fun r => r.ref = .proxy id) (f := fun r => { r with deleted := true })
    (fun _ => rfl) (fun _ => rfl) (fun r _ hp huse => ?_) rfl rfl (Nat.le_refl _) rfl
  have href : r.ref = .proxy id := by simpa using hp
  simp [inUse, href] at huse

theorem inv_shareProfile (h : Inv w) {profile user : ℕ} {wrappedKey : Key}
    (hcareful : ∀ r ∈ stored w (.shareProfile profile user wrappedKey),
      inUse r = true → Timely w r)
    (hs : shareProfile w profile user wrappedKey = some w') : Inv w' := by
  obtain ⟨org, horg, hs⟩ := Option.bind_eq_some_iff.mp hs
  have hput := hcareful (put w (.share profile user) org wrappedKey) (by simp [stored, horg])
  simp only [Option.ite_none_left_eq_some] at hs
  obtain ⟨_, hs⟩ := hs
  split at hs
  · simp only [Option.ite_none_left_eq_some, Option.some.injEq] at hs
    obtain ⟨_, rfl⟩ := hs
    refine inv_setKey h fun x hx => ?_
    have heq : put w (.share profile user) org wrappedKey = x := by
      unfold put
      rw [Option.mem_def.mp hx]
      rfl
    exact heq ▸ hput
  · next hhas =>
    simp only [Option.ite_none_left_eq_some, Option.some.injEq] at hs
    obtain ⟨_, rfl⟩ := hs
    have hnew : w.has (.share profile user) = false := by simpa using hhas
    exact h.insert hnew (generation_of_orgOf h horg) (fits_put hnew hput) rfl rfl
      (Nat.le_refl _) rfl

/-- An upload that names its generation holds the organisation's row, so no
rotation is in flight, and its generation is compared with the one in force. -/
theorem upload_checked {profile id keyGeneration org : ℕ} {wrappedDek : Key}
    (horg : w.orgOf profile = some org)
    (hs : uploadBundle w profile id wrappedDek (some keyGeneration) = some w') :
    w.rotating org = false ∧ ∀ g ∈ w.generation org, g ≤ keyGeneration := by
  obtain ⟨org', horg', hs⟩ := Option.bind_eq_some_iff.mp hs
  cases horg.symm.trans horg'
  simp only [Option.ite_none_left_eq_some, Option.ite_none_right_eq_some, Option.all_some,
    Bool.and_eq_true, Bool.not_eq_eq_eq_not, Bool.not_true] at hs
  obtain ⟨_, ⟨hrot, hall⟩, _⟩ := hs
  refine ⟨hrot, fun g hg => ?_⟩
  rw [Option.mem_def.mp hg] at hall
  simpa using hall

theorem inv_uploadBundle (h : Inv w) {profile id : ℕ} {wrappedDek : Key}
    {keyGeneration : Option ℕ}
    (hcareful : Careful w (.uploadBundle profile id wrappedDek keyGeneration))
    (hs : uploadBundle w profile id wrappedDek keyGeneration = some w') : Inv w' := by
  have hrun := hs
  obtain ⟨org, horg, hs⟩ := Option.bind_eq_some_iff.mp hs
  simp only [Option.ite_none_left_eq_some, Option.ite_none_right_eq_some, Bool.or_eq_true,
    not_or, Bool.not_eq_true, Option.some.injEq] at hs
  obtain ⟨⟨_, hnew⟩, _, rfl⟩ := hs
  refine h.insert hnew (generation_of_orgOf h horg) ?_ rfl rfl (Nat.le_refl _) rfl
  cases keyGeneration with
  | none =>
    exact fits_put hnew (hcareful (put w (.bundle id) org wrappedDek) (by simp [stored, horg]))
  | some keyGeneration =>
    obtain ⟨hrot, hgen⟩ := upload_checked horg hrun
    have hnamed : keyGeneration ≤ wrappedDek.generation := hcareful
    refine fun _ => ⟨fun g hg k hk => ?_, .inl (past_of_not_rotating hrot)⟩
    cases hk
    exact Nat.le_trans (hgen g hg) hnamed

end Requests

section Rotations

variable {w w' : World}

theorem Inv.rollback (h : Inv w) (id : ℕ) : Inv (w.rollback id) where
  orgIds := h.orgIds
  refs := h.refs
  orgs := h.orgs
  separate := h.separate.rollback rfl rfl
  covering rot hrot := by
    have hold := h.covering rot (mem_deleteWhere.mp hrot).1
    exact ⟨hold.base, hold.stage, hold.covered⟩
  complete := h.complete

theorem inv_rotateBegins (h : Inv w) {caller : ℕ} {req : RotateRequest}
    (hs : step w (.rotateBegins caller req) = some w') : Inv w' := by
  have hseparate := separate_step h.separate hs
  obtain ⟨seat, _, hs⟩ := Option.bind_eq_some_iff.mp hs
  simp only [Option.ite_none_right_eq_some, Bool.and_eq_true, Bool.not_eq_eq_eq_not,
    Bool.not_true, decide_eq_true_eq, Option.some.injEq] at hs
  obtain ⟨⟨_, hbase⟩, rfl⟩ := hs
  refine
    { orgIds := h.orgIds
      refs := h.refs
      orgs := h.orgs
      separate := hseparate
      covering := fun rot hrot => ?_
      complete := h.complete }
  rcases List.mem_cons.mp hrot with rfl | hrot
  · refine ⟨hbase, (List.mem_tails _ _).mpr List.suffix_rfl, fun r _ _ _ hgate => ?_⟩
    exact absurd (gate_mem_plan r.ref.kind) hgate
  · have hold := h.covering rot hrot
    exact ⟨hold.base, hold.stage, hold.covered⟩

/-- A key in use is one its table's check asks for. -/
theorem required_of_inUse {r : Row} (huse : inUse r = true) (hkind : r.ref.kind ≠ .proxies) :
    r.ref.kind.required r = true := by
  cases href : r.ref with
  | proxy id =>
    rw [href] at hkind
    exact absurd rfl hkind
  | _ =>
    revert huse
    simp [inUse, href, Ref.kind, Kind.required]

/-- A row in use matches its table's update. -/
theorem updates_of_inUse {r : Row} (huse : inUse r = true) : r.ref.kind.updates r = true := by
  cases href : r.ref <;> simp_all [inUse, Ref.kind, Kind.updates]

theorem supplied_of_covers {rot : Rotation} {kind : Kind} {r : Row}
    (h : rot.covers kind r = true) :
    r.ref.listed rot.req.unreadable = true ∨ ∃ s ∈ rot.req.supplied kind, s.1 = r.ref := by
  rcases Bool.or_eq_true_iff.mp h with hany | hstay
  · obtain ⟨s, hs, heq⟩ := List.any_eq_true.mp hany
    exact .inr ⟨s, hs, by simpa using heq⟩
  · exact .inl (Bool.and_eq_true_iff.mp hstay).2

/-- A rotation that runs its next statement covers what it covered, and with a
check the rows of its table, and with an update those it supplied. -/
theorem covering_runs {rot : Rotation} {phase : Phase} {rest : List Phase}
    {writes : List (Ref × Sealed)} (hold : Covering w rot) (htodo : rot.todo = phase :: rest)
    (hproxies : ProxiesSupplied w rot) (hruns : rot.runs w phase = some writes) :
    Covering w { rot with todo := rest, writes := writes } := by
  have htails := hold.stage
  rw [htodo] at htails
  obtain ⟨_, _, hrest⟩ := plan_order _ htails .members
  refine ⟨hold.base, hrest, fun r hr hsees huse hgate => ?_⟩
  obtain ⟨hcheck, hwrite, _⟩ := plan_order _ htails r.ref.kind
  simp only [List.head?_cons, Option.some.injEq, List.tail_cons] at hcheck hwrite
  have hsees' : rot.sees r = true := hsees
  -- Statements about other tables leave what was covered.
  have hkept : gate r.ref.kind ≠ phase → .write r.ref.kind ≠ phase →
      r.ref.listed rot.req.unreadable = true ∨ (∃ s ∈ rot.writes, s.1 = r.ref) ∨
        (.write r.ref.kind ∈ rest ∧ ∃ s ∈ rot.req.supplied r.ref.kind, s.1 = r.ref) := by
    intro hgate' hwrite'
    have hcov := hold.covered r hr hsees' huse
    rw [htodo, List.mem_cons, not_or, List.mem_cons] at hcov
    rcases hcov ⟨hgate', hgate⟩ with hl | hw | ⟨heq | hin, hsup⟩
    · exact .inl hl
    · exact .inr (.inl hw)
    · exact absurd heq hwrite'
    · exact .inr (.inr ⟨hin, hsup⟩)
  cases phase with
  | check kind =>
    simp only [Rotation.runs, Option.ite_none_right_eq_some, Option.some.injEq] at hruns
    obtain ⟨hall, rfl⟩ := hruns
    by_cases hkind : r.ref.kind = kind
    · obtain ⟨hproxy, hin⟩ := hcheck (by rw [hkind])
      have hreq := required_of_inUse huse hproxy
      have hrow := List.all_eq_true.mp hall r hr
      rw [← hkind] at hrow
      simp only [hsees', hreq, decide_true, Bool.and_self, Bool.not_true, Bool.false_or] at hrow
      rcases supplied_of_covers hrow with hlisted | hsup
      · exact .inl hlisted
      · exact .inr (.inr ⟨hin, hsup⟩)
    · refine hkept (fun heq => ?_) (fun heq => Phase.noConfusion heq)
      cases hk : r.ref.kind <;> rw [hk] at heq hkind <;> cases heq <;> exact hkind rfl
  | write kind =>
    simp only [Rotation.runs, Option.ite_none_right_eq_some, Option.some.injEq] at hruns
    obtain ⟨_, rfl⟩ := hruns
    by_cases hkind : r.ref.kind = kind
    · have hcov : r.ref.listed rot.req.unreadable = true ∨ (∃ s ∈ rot.writes, s.1 = r.ref) ∨
          ∃ s ∈ rot.req.supplied r.ref.kind, s.1 = r.ref := by
        by_cases hproxy : r.ref.kind = .proxies
        · have hhead : rot.todo.head? = some (.write .proxies) := by
            rw [htodo, ← hproxy, hkind]
            rfl
          rcases hproxies hhead r hr hsees' hproxy huse with hsup | hlisted
          · rw [← hproxy] at hsup
            exact (supplied_of_covers hsup).imp_right .inr
          · exact .inl hlisted
        · have hpassed : gate r.ref.kind ∉ rot.todo := by
            rw [htodo]
            exact hwrite (by rw [hkind]) hproxy
          exact (hold.covered r hr hsees' huse hpassed).imp_right (.imp_right And.right)
      rcases hcov with hl | ⟨s, hs, href⟩ | ⟨s, hs, href⟩
      · exact .inl hl
      · exact .inr (.inl ⟨s, List.mem_append_left _ hs, href⟩)
      · -- The row is there, so the update matches it.
        refine .inr (.inl ⟨s, List.mem_append_right _ (List.mem_filter.mpr ⟨hkind ▸ hs, ?_⟩), href⟩)
        refine List.any_eq_true.mpr ⟨r, hr, ?_⟩
        simp [hsees', href, ← hkind, updates_of_inUse huse]
    · have hother : gate r.ref.kind ≠ .write kind := by
        intro heq
        cases hk : r.ref.kind <;> rw [hk] at heq hkind <;> cases heq
        exact hkind rfl
      have hother' : Phase.write r.ref.kind ≠ .write kind := fun heq => hkind (Phase.write.inj heq)
      rcases hkept hother hother' with hl | ⟨s, hs, href⟩ | hsup
      · exact .inl hl
      · exact .inr (.inl ⟨s, List.mem_append_left _ hs, href⟩)
      · exact .inr (.inr hsup)

theorem inv_rotateGoesOn (h : Inv w) {id : ℕ} (hcareful : Careful w (.rotateGoesOn id))
    (hs : step w (.rotateGoesOn id) = some w') : Inv w' := by
  have hseparate := separate_step h.separate hs
  obtain ⟨rot, hrot, hs⟩ := Option.bind_eq_some_iff.mp hs
  obtain ⟨hmem, hid⟩ := lookup_some hrot
  split at hs
  · cases hs
  · next phase rest htodo =>
    split at hs
    · cases hs
      exact h.rollback id
    · next writes hruns =>
      cases hs
      refine
        { orgIds := h.orgIds
          refs := h.refs
          orgs := h.orgs
          separate := hseparate
          covering := fun x hx => ?_
          complete := h.complete }
      rcases updateWhere_cases hx with ⟨hin, _⟩ | ⟨old, hin, hp, rfl⟩
      · have hold := h.covering x hin
        exact ⟨hold.base, hold.stage, hold.covered⟩
      · have heq : old = rot := h.separate.ids.eq hin hmem (by simpa [hid] using hp)
        subst heq
        have hnew := covering_runs (h.covering old hin) htodo (hcareful old hrot) hruns
        exact ⟨hnew.base, hnew.stage, hnew.covered⟩

/-- A commit leaves other organisations' rows alone. -/
theorem applied_elsewhere {rot : Rotation} {r : Row} (horg : r.org ≠ rot.org) :
    rot.applied r = r := by
  unfold Rotation.applied
  have hnone : (rot.writes.reverse.find? fun s => s.1 = r.ref && r.org = rot.org) = none := by
    simp [horg]
  rw [hnone]

/-- A rotation that is through its plan covers every key in use. -/
theorem covered_at_end {rot : Rotation} (hcov : Covering w rot) (hdone : rot.todo = [])
    {r : Row} (hr : r ∈ w.rows) (hsees : rot.sees r = true) (huse : inUse r = true) :
    r.ref.listed rot.req.unreadable = true ∨ ∃ s ∈ rot.writes, s.1 = r.ref := by
  rcases hcov.covered r hr hsees huse (by simp [hdone]) with hl | hw | ⟨hin, _⟩
  · exact .inl hl
  · exact .inr hw
  · rw [hdone] at hin
    cases hin

theorem inv_rotateCommits (h : Inv w) {id : ℕ} (hs : step w (.rotateCommits id) = some w') :
    Inv w' := by
  have hseparate := separate_step h.separate hs
  obtain ⟨rot, hrot, hs⟩ := Option.bind_eq_some_iff.mp hs
  obtain ⟨hmem, hid⟩ := lookup_some hrot
  simp only [Option.ite_none_right_eq_some, Option.some.injEq] at hs
  obtain ⟨hdone, hw'⟩ := hs
  have hcov := h.covering rot hmem
  have horgs : KeyUnique Org.id w'.orgs := by
    rw [← hw']
    exact h.orgIds.updateWhere fun _ _ => rfl
  -- The other organisations keep their generation, this one has the next.
  have hself : ∃ o ∈ w'.orgs, o.id = rot.org ∧ o.generation = rot.req.generation + 1 ∧
      o.left = rot.req.unreadable := by
    have hbase := hcov.base
    obtain ⟨o, ho, _⟩ := Option.map_eq_some_iff.mp hbase
    obtain ⟨hin, hoid⟩ := lookup_some ho
    rw [← hw']
    exact ⟨_, mem_updateWhere_of hin (by simpa using hoid), hoid, rfl, rfl⟩
  have hother : ∀ o ∈ w.orgs, o.id ≠ rot.org → o ∈ w'.orgs := by
    intro o ho hne
    rw [← hw']
    exact mem_updateWhere_of_not ho (by simpa using hne)
  have hgen : ∀ org, org ≠ rot.org → (w.generation org).isSome = true →
      w'.generation org = w.generation org := by
    intro org hne hsome
    obtain ⟨g, hg⟩ := Option.isSome_iff_exists.mp hsome
    obtain ⟨o, ho, rfl⟩ := Option.map_eq_some_iff.mp hg
    obtain ⟨hin, rfl⟩ := lookup_some ho
    rw [generation_of_mem horgs (hother o hin hne), generation_of_mem h.orgIds hin]
  have hgenSelf : w'.generation rot.org = some (rot.req.generation + 1) := by
    obtain ⟨o, ho, hoid, hog, _⟩ := hself
    rw [← hoid, generation_of_mem horgs ho, hog]
  have hrows : ∀ r ∈ w'.rows, ∃ old ∈ w.rows, r = rot.applied old ∧
      (old.org = rot.org → rot.sees old = true) := by
    intro r hr
    rw [← hw'] at hr
    obtain ⟨hin, hkept⟩ := mem_deleteWhere.mp hr
    obtain ⟨old, hold, rfl⟩ := List.mem_map.mp hin
    refine ⟨old, hold, rfl, fun horg => ?_⟩
    simpa [Rotation.sees, horg] using hkept
  refine
    { orgIds := horgs
      refs := ?_
      orgs := fun r hr => ?_
      separate := hseparate
      covering := fun x hx => ?_
      complete := fun r hr huse => ?_ }
  · rw [← hw']
    refine KeyUnique.deleteWhere ?_
    have hsame : (w.rows.map rot.applied).map Row.ref = w.rows.map Row.ref := by
      simp [Function.comp_def]
    unfold KeyUnique
    rw [hsame]
    exact h.refs
  · obtain ⟨old, hold, rfl, _⟩ := hrows r hr
    rw [applied_org]
    by_cases horg : old.org = rot.org
    · rw [horg, hgenSelf]
      rfl
    · rw [hgen _ horg (h.orgs old hold)]
      exact h.orgs old hold
  · rw [← hw'] at hx
    obtain ⟨hin, hne⟩ := mem_deleteWhere.mp hx
    have hold := h.covering x hin
    have horg : x.org ≠ rot.org := by
      intro heq
      have hsame := h.separate.orgs.eq hin hmem heq
      rw [hsame, hid] at hne
      simp at hne
    refine ⟨?_, hold.stage, fun r hr hsees huse hgate => ?_⟩
    · rw [hgen _ horg (by rw [hold.base]; rfl)]
      exact hold.base
    · obtain ⟨old, hmemold, rfl, _⟩ := hrows r hr
      have hroworg : old.org = x.org := by
        simpa using (Bool.and_eq_true_iff.mp hsees).1
      have hsame : rot.applied old = old := applied_elsewhere (by rw [hroworg]; exact horg)
      rw [hsame] at hsees huse hgate ⊢
      exact hold.covered old hmemold hsees huse hgate
  · obtain ⟨old, hold, rfl, hsees⟩ := hrows r hr
    by_cases horg : old.org = rot.org
    · rcases applied_cases rot old with ⟨s, _, _, _, hkey, _⟩ | ⟨hsame, hnot⟩
      · left
        intro g hg k hk
        rw [applied_org, horg, hgenSelf] at hg
        rw [hkey] at hk
        cases hg
        cases hk
        exact Nat.le_refl _
      · rw [hsame] at huse ⊢
        rcases covered_at_end hcov hdone hold (hsees horg) huse with hl | hw
        · obtain ⟨o, ho, hoid, _, hleft⟩ := hself
          exact .inr ⟨o, ho, hoid.trans horg.symm, by rw [hleft]; exact hl⟩
        · exact absurd hw (hnot horg)
    · have hsame : rot.applied old = old := applied_elsewhere horg
      rw [hsame] at huse ⊢
      rcases h.complete old hold huse with hcur | ⟨o, ho, hoid, hl⟩
      · left
        unfold Current
        rw [hgen _ horg (h.orgs old hold)]
        exact hcur
      · exact .inr ⟨o, hother o ho (by rw [hoid]; exact horg), hoid, hl⟩

end Rotations

theorem inv_step : Preserved step Careful Inv := by
  intro w a w' h hg hs
  cases a with
  | signup user org wrappedOrk => exact inv_signup h hs
  | invite caller role =>
    obtain ⟨s, _, hs⟩ := Option.bind_eq_some_iff.mp hs
    simp only [Option.ite_none_left_eq_some, Option.some.injEq] at hs
    obtain ⟨_, rfl⟩ := hs
    exact h.same rfl rfl rfl (Nat.le_succ _)
  | cliInvite org role =>
    simp only [step, cliInvite, Option.ite_none_left_eq_some, Option.some.injEq] at hs
    obtain ⟨_, rfl⟩ := hs
    exact h.same rfl rfl rfl (Nat.le_succ _)
  | enroll invitation user newOrg wrappedOrk => exact inv_completeEnrollment h hg hs
  | handOverReads caller user wrappedOrk =>
    obtain ⟨s, _, hs⟩ := Option.bind_eq_some_iff.mp hs
    simp only [Option.ite_none_right_eq_some, Option.map_eq_some_iff] at hs
    obtain ⟨_, _, _, rfl⟩ := hs
    exact h.same rfl rfl rfl (Nat.le_succ _)
  | handOverWrites id => exact inv_handOverWrites h hg hs
  | rotateBegins caller req => exact inv_rotateBegins h hs
  | rotateGoesOn id => exact inv_rotateGoesOn h hg hs
  | rotateCommits id => exact inv_rotateCommits h hs
  | rotateFails id =>
    cases hs
    exact h.rollback id
  | createProxy org id wrappedDek =>
    simp only [step, createProxy, Option.ite_none_right_eq_some, Bool.and_eq_true,
      Bool.not_eq_eq_eq_not, Bool.not_true, Option.some.injEq] at hs
    obtain ⟨⟨⟨⟨_, hnew⟩, hexists⟩, _⟩, rfl⟩ := hs
    exact h.insert hnew hexists (fits_put hnew (hg _ rfl)) rfl rfl (Nat.le_refl _) rfl
  | editProxy id wrappedDek =>
    simp only [step, editProxy, Option.ite_none_right_eq_some, Option.some.injEq] at hs
    obtain ⟨_, rfl⟩ := hs
    exact inv_setKey h hg
  | deleteProxy id => exact inv_deleteProxy h hs
  | createCredential profile id wrappedDek =>
    obtain ⟨org, horg, hs⟩ := Option.bind_eq_some_iff.mp hs
    simp only [Option.ite_none_right_eq_some, Bool.and_eq_true, Bool.not_eq_eq_eq_not,
      Bool.not_true, Option.some.injEq] at hs
    obtain ⟨⟨_, hnew⟩, rfl⟩ := hs
    have hput := hg (put w (.credential id) org wrappedDek) (by simp [stored, horg])
    exact h.insert hnew (generation_of_orgOf h horg) (fits_put hnew hput) rfl rfl
      (Nat.le_refl _) rfl
  | editCredential id wrappedDek =>
    simp only [step, editCredential, Option.ite_none_right_eq_some, Option.some.injEq] at hs
    obtain ⟨_, rfl⟩ := hs
    exact inv_setKey h hg
  | createProfile org profile =>
    simp only [step, createProfile, Option.ite_none_right_eq_some, Bool.and_eq_true,
      Bool.not_eq_eq_eq_not, Bool.not_true, Option.some.injEq] at hs
    obtain ⟨⟨⟨hexists, hnew⟩, _⟩, rfl⟩ := hs
    exact h.insert hnew hexists fits_empty rfl rfl (Nat.le_refl _) rfl
  | grantAccess profile user =>
    obtain ⟨org, horg, hs⟩ := Option.bind_eq_some_iff.mp hs
    simp only [Option.ite_none_right_eq_some, Bool.and_eq_true, Bool.not_eq_eq_eq_not,
      Bool.not_true, Option.some.injEq] at hs
    obtain ⟨⟨hnew, _⟩, rfl⟩ := hs
    exact h.insert hnew (generation_of_orgOf h horg) fits_empty rfl rfl (Nat.le_refl _) rfl
  | shareProfile profile user wrappedKey => exact inv_shareProfile h hg hs
  | uploadBundle profile id wrappedDek keyGeneration => exact inv_uploadBundle h hg hs
  | removeRow ref => exact inv_removeRow h hs

/-- What careful requests store is current: the uploads that name their
generation because the server compares it, the others because they are timely. -/
theorem storesCurrent_of_careful {w w' : World} {a : Label} (hg : Careful w a)
    (hs : step w a = some w') : StoresCurrent w a := by
  intro r hr huse
  cases a with
  | uploadBundle profile id wrappedDek keyGeneration =>
    cases keyGeneration with
    | none => exact (hg r hr huse).1
    | some keyGeneration =>
      obtain ⟨org, horg, rfl⟩ := Option.map_eq_some_iff.mp hr
      obtain ⟨_, hgen⟩ := upload_checked horg hs
      have hnamed : keyGeneration ≤ wrappedDek.generation := hg
      have hnew : w.has (.bundle id) = false := by
        obtain ⟨_, _, hs⟩ := Option.bind_eq_some_iff.mp hs
        simp only [Option.ite_none_left_eq_some, Bool.or_eq_true, not_or,
          Bool.not_eq_true] at hs
        exact hs.1.2
      have hnone : lookup Row.ref w.rows (.bundle id) = none := by
        simpa [World.has] using hnew
      intro g hg' k hk
      simp only [put, edited, hnone, Option.map_none, Option.getD_none, Option.mem_def,
        Option.some.injEq] at hg' hk
      exact hk ▸ Nat.le_trans (hgen g hg') hnamed
  | signup user org wrappedOrk => cases hr
  | invite caller role => cases hr
  | cliInvite org role => cases hr
  | handOverReads caller user wrappedOrk => cases hr
  | rotateBegins caller req => cases hr
  | rotateGoesOn id => cases hr
  | rotateCommits id => cases hr
  | rotateFails id => cases hr
  | deleteProxy id => cases hr
  | createProfile org profile => cases hr
  | grantAccess profile user => cases hr
  | removeRow ref => cases hr
  | _ => exact (hg r hr huse).1

/-- However rotations, writes and uploads interleave, in careful runs every key in
use is of the generation in force or was listed as unreadable by the rotation
that brought it, and no request stores an older one. -/
theorem rotation_leaves_nothing_behind {w : World} (hr : Reached init step Careful w) :
    Complete w ∧ ∀ a w', Careful w a → step w a = some w' → StoresCurrent w a := by
  have h := hr.invariant Inv (fun _ hi => hi ▸ inv_empty) inv_step
  exact ⟨h.complete, fun _ _ => storesCurrent_of_careful⟩

/-- A bundle's data key under a profile key. -/
def sealedBundle : Sealed := ⟨110, none, true⟩

/-- A team with a proxy and a profile that has a bundle. -/
def team : List Label :=
  [.signup 1 0 sealedKey, .createProxy 0 7 ⟨sealedKey, 1⟩, .createProfile 0 5,
    .uploadBundle 5 9 ⟨sealedBundle, 1⟩ (some 1)]

/-- A rotation of that team that supplies these proxies. -/
def rotation (proxies : List (ℕ × Sealed)) : List Label :=
  wholeRotation 0 1
    { removeUserId := none
      members := [(1, sealedKey)]
      proxies := proxies
      generation := 1
      cookieKeys := [(5, sealedKey)]
      bundles := [(9, sealedBundle)]
      credentials := []
      shares := []
      unreadable := [] }

theorem rotation_leaves_nothing_behind_team :
    Complete (after (team ++ rotation [(7, sealedKey)])) ∧
      StoresCurrent (after (team ++ rotation [(7, sealedKey)]))
        (.uploadBundle 5 10 ⟨sealedBundle, 2⟩ (some 2)) := by
  have hempty : Reached init step Careful empty := .start rfl
  have hteam := hempty.run (t := after (team ++ rotation [(7, sealedKey)]))
    (team ++ rotation [(7, sealedKey)]) (by decide) (by decide)
  obtain ⟨hcomplete, hstores⟩ := rotation_leaves_nothing_behind hteam
  refine ⟨hcomplete, hstores _ ((step (after (team ++ rotation [(7, sealedKey)]))
    (.uploadBundle 5 10 ⟨sealedBundle, 2⟩ (some 2))).getD empty) ?_ ?_⟩
  · exact Nat.le_refl 2
  · decide

/-- A rotation that supplies no proxy is accepted and leaves the proxy's key under
the old one, and a proxy whose key was made with the old one is accepted after
it. -/
theorem rotation_leaves_proxies_behind :
    Reached init step anyStep (after (team ++ rotation [])) ∧
      ¬ Complete (after (team ++ rotation [])) ∧
      Reached init step anyStep (after (team ++ rotation [(7, sealedKey)])) ∧
      (∃ w', step (after (team ++ rotation [(7, sealedKey)])) (.createProxy 0 8 ⟨sealedKey, 1⟩) =
        some w' ∧ ¬ Complete w') ∧
      ¬ StoresCurrent (after (team ++ rotation [(7, sealedKey)]))
        (.createProxy 0 8 ⟨sealedKey, 1⟩) := by
  have hempty : Reached init step anyStep empty := .start rfl
  refine ⟨?_, by decide, ?_, ?_, fun h => ?_⟩
  · exact hempty.run_any (team ++ rotation []) (by decide)
  · exact hempty.run_any (team ++ rotation [(7, sealedKey)]) (by decide)
  · exact ⟨after (team ++ rotation [(7, sealedKey)] ++ [.createProxy 0 8 ⟨sealedKey, 1⟩]),
      by decide, by decide⟩
  · exact absurd (h _ rfl (by decide)) (by decide)

end FuryBrowser.RotationComplete
