import FuryBrowser.UploadCarries

/-!
# The exit of an uploaded profile

An upload is to leave through a proxy of the organisation that is the local one, and to create it
only if there is none. It looks for one by its host and port in the list of the server, which has no
such members: nothing is ever found, so what others use stays as it is, and a proxy is created on
every upload.
-/

namespace FuryBrowser.ExitReuse

open RowTable WrappedKeys AgentDisk BundleUnpack BundlePack ProfileUpload UploadCarries
open BundleRoundTrip (sampleLibrary)
open ProfileShares (ProxyCredentials Codec openProxyCredentials)

variable {η β ν π ω : Type}

section Statements

/-- What is left when something was done with the server, or has failed. -/
def finalState {α : Type} : EStateM.Result UploadError (Server β ω) α → Server β ω
  | .ok _ s => s
  | .error _ s => s

variable (lib : PackLibrary) (K : KeyScheme Key η β ν π) (C : Codec String ν)
variable (mask : String → String) (m : Machine ω) (o : Outcomes) (d : Draws η)
variable (s : Server β ω) (id : String)

/-- A proxy of the organisation has these credentials, for whoever holds the key. -/
def HasLogin (orgKey : Key) (x : LocalProxy) (y : ServerProxy β) : Prop :=
  openProxyCredentials K C orgKey y.credentialsEnc y.wrappedDek = some x.credentials

/-- It is a local one: the kind, the address up to white space around it, and the credentials, of
which an empty one is none. -/
structure SameExit (orgKey : Key) (x : LocalProxy) (y : ServerProxy β) : Prop where
  kind : y.kind = x.kind
  host : y.host = trim x.host
  port : y.port = x.port
  /-- The login and the password. -/
  login : HasLogin K C orgKey x y

/-- A profile of this machine, the proxy that it leaves through, and the key that the shell
holds. -/
structure Leaves (orgKey : Key) (x : LocalProxy) : Prop where
  holdsKey : m.orgKey = some orgKey
  exit : ∃ row, lookup ProfileRow.id m.store.profiles id = some row ∧ m.store.proxyOf row = some x

/-- The server after an upload. -/
def afterUpload : Server β ω := finalState (uploadProfile lib K C mask m o d id s)

/-- What an upload has to do about the exit, and what it must not. -/
structure ReusesExit : Prop where
  /-- The new profile leaves through a proxy that is the local one. -/
  attached : ∀ remoteId after, uploadProfile lib K C mask m o d id s = .ok remoteId after →
    ∃ orgKey x p y, Leaves m id orgKey x ∧
      lookup ServerProfile.id after.profiles remoteId = some p ∧
        lookup ServerProxy.id after.proxies p.proxyId = some y ∧ SameExit K C orgKey x y
  /-- There is no new proxy if there was one like that. -/
  reused : ∀ orgKey x, Leaves m id orgKey x → (∃ y ∈ s.proxies, SameExit K C orgKey x y) →
    (afterUpload lib K C mask m o d s id).proxies.map ServerProxy.id =
      s.proxies.map ServerProxy.id
  /-- A proxy with another login or password keeps what is stored of it. -/
  untouched : ∀ orgKey x, Leaves m id orgKey x → ∀ y ∈ s.proxies, ¬HasLogin K C orgKey x y →
    ∃ y' ∈ (afterUpload lib K C mask m o d s id).proxies, y'.id = y.id ∧
      y'.credentialsEnc = y.credentialsEnc ∧ y'.wrappedDek = y.wrappedDek

/-- The upload gets to create a proxy. -/
structure MakesExit (orgKey : Key) (row : ProfileRow ω) (x : LocalProxy) : Prop
    extends Asks m o id orgKey row x where
  /-- The server lists its proxies. -/
  proxies : o.listProxies = .answered
  /-- It is told to create one. -/
  arrives : o.createProxy.arrives = true
  valid : (proxyRequest K C d orgKey x).valid = true
  newProxy : ∀ y ∈ s.proxies, y.id ≠ d.newProxy

end Statements

section Frames

variable {α γ : Type}

/-- An operation that keeps the proxies, whatever it comes to. -/
def Keeps (x : ServerOp β ω α) : Prop := ∀ s, (finalState (x s)).proxies = s.proxies

theorem keeps_pure (a : α) : Keeps (pure a : ServerOp β ω α) := fun _ => rfl

theorem keeps_throw (e : UploadError) : Keeps (throw e : ServerOp β ω α) := fun _ => rfl

theorem keeps_bind {x : ServerOp β ω α} {f : α → ServerOp β ω γ} (hx : Keeps x)
    (hf : ∀ a, Keeps (f a)) : Keeps (x >>= f) := by
  intro s
  cases h : x s with
  | ok a s' =>
    rw [bind_of_ok h, hf a s', ← hx s, h]
    rfl
  | error e s' =>
    rw [bind_of_error h, ← hx s, h]
    rfl

theorem keeps_call {d : Delivery} {handler : Server β ω → Option (α × Server β ω)}
    (h : ∀ s a s', handler s = some (a, s') → s'.proxies = s.proxies) :
    Keeps (call d handler) := by
  intro s
  cases hs : handler s with
  | none =>
    rw [call_none d hs]
    rfl
  | some r =>
    obtain ⟨a, s'⟩ := r
    rcases call_some handler d hs with ⟨-, hcall⟩ | ⟨-, hcall⟩ | ⟨-, hcall⟩ <;> rw [hcall]
    · exact h s a s' hs
    · exact h s a s' hs
    · rfl

theorem keeps_answer (answers : Bool) (a : α) : Keeps (answer answers a : ServerOp β ω α) := by
  cases answers
  · exact keeps_throw _
  · exact keeps_pure _

theorem keeps_result {x : ServerOp β ω α} (hx : Keeps x) : Keeps (result x) := by
  intro s
  rw [← hx s]
  unfold result
  cases x s <;> rfl

variable {lib : PackLibrary} {m : Machine ω} {o : Outcomes} {d : Draws η}

theorem keeps_uploadTo (id remoteId : String) (key : Key) :
    Keeps (uploadTo lib m o d id remoteId key : ServerOp β ω Unit) := by
  cases hclosed : o.closed with
  | false =>
    intro s
    unfold uploadTo
    rw [hclosed]
    rfl
  | true =>
    cases hpack : pack lib m.disk (m.profileDir id) (.shared key (some m.vault)) d.bundle with
    | error e =>
      intro s
      unfold uploadTo
      rw [hclosed, hpack]
      rfl
    | ok bundle =>
      rw [uploadTo_eq hclosed hpack]
      refine keeps_call fun s a s' h => ?_
      unfold Server.pushBundle at h
      obtain ⟨-, heq⟩ := Option.ite_none_right_eq_some.mp h
      rw [← (Prod.mk.inj (Option.some.inj heq)).2]

theorem keeps_fillProfile (orgKey : Key) (id remoteId : String) :
    Keeps (fillProfile lib m o d orgKey id remoteId : ServerOp β ω Unit) := by
  have hquiet (l : Delivery) : Keeps (call l fun s : Server β ω => some ((), s)) :=
    keeps_call fun s a s' h => (by rw [(Prod.mk.inj (Option.some.inj h)).2])
  unfold fillProfile
  refine keeps_bind (hquiet _) fun _ => ?_
  cases o.signedIn with
  | false => exact keeps_throw _
  | true =>
    refine keeps_bind (keeps_result (keeps_bind (keeps_uploadTo _ _ _) fun _ => keeps_answer _ _))
      fun uploaded => ?_
    refine keeps_bind (keeps_result (hquiet _)) fun _ => ?_
    cases uploaded with
    | ok _ => exact keeps_pure _
    | error e => exact keeps_throw _

theorem keeps_sendProfile (orgKey : Key) (me : LocalProfile ω) (proxyId : Option String) :
    Keeps (sendProfile lib m o d orgKey me proxyId : ServerOp β ω String) := by
  unfold sendProfile
  refine keeps_bind (keeps_call fun s a s' h => ?_) fun remoteId => ?_
  · obtain ⟨req, -, h⟩ := Option.bind_eq_some_iff.mp h
    unfold Server.createProfile at h
    obtain ⟨-, h⟩ := Option.ite_none_right_eq_some.mp h
    obtain ⟨seed, -, heq⟩ := Option.map_eq_some_iff.mp h
    rw [← (Prod.mk.inj heq).2]
  · exact keeps_bind (keeps_fillProfile _ _ _) fun _ => keeps_pure _

end Frames

section Exits

variable {lib : PackLibrary} {K : KeyScheme Key η β ν π} {C : Codec String ν}
variable {mask : String → String} {m : Machine ω} {o : Outcomes} {d : Draws η}
variable {s : Server β ω} {id : String} {orgKey : Key} {row : ProfileRow ω} {x : LocalProxy}

/-- The proxy that is created is the local one. -/
theorem sameExit_created : SameExit K C orgKey x (createdProxy K C d orgKey x) :=
  ⟨rfl, rfl, rfl, openProxyCredentials_sealed.mpr ⟨rfl, rfl⟩⟩

/-- Finding the exit creates it, if it gets to. -/
theorem exitProxy_made (h : MakesExit K C m o d s id orgKey row x) :
    (finalState (exitProxy K C mask m o d orgKey x s)).proxies =
      createdProxy K C d orgKey x :: s.proxies := by
  have hmade : s.createProxy d.newProxy (proxyRequest K C d orgKey x) =
      some (d.newProxy, withProxy K C d orgKey x s) := by
    unfold Server.createProxy
    rw [if_pos (by simpa using ⟨h.valid, h.newProxy⟩)]
    rfl
  unfold exitProxy
  rw [h.proxies, bind_of_ok (call_answered rfl)]
  simp only [matching_listProxies]
  rcases call_some (fun s => s.createProxy d.newProxy (proxyRequest K C d orgKey x))
      o.createProxy hmade with ⟨-, hcall⟩ | ⟨-, hcall⟩ | ⟨hnot, -⟩
  · rw [bind_of_ok hcall]
    rfl
  · rw [bind_of_error hcall]
    rfl
  · rw [h.arrives] at hnot
    cases hnot

/-- And it leaves the proxies as they are, if it does not. -/
theorem exitProxy_kept (hasks : Asks m o id orgKey row x)
    (h : ¬MakesExit K C m o d s id orgKey row x) :
    (finalState (exitProxy K C mask m o d orgKey x s)).proxies = s.proxies := by
  unfold exitProxy
  rcases call_quiet o.listProxies (fun s => s.listProxies mask m.reveal) s with
    ⟨hlist, hcall⟩ | ⟨-, hcall⟩
  · rw [bind_of_ok hcall]
    simp only [matching_listProxies]
    cases hmade : s.createProxy d.newProxy (proxyRequest K C d orgKey x) with
    | none =>
      rw [bind_of_error (call_none _ hmade)]
      rfl
    | some r =>
      unfold Server.createProxy at hmade
      obtain ⟨hnew, -⟩ := Option.ite_none_right_eq_some.mp hmade
      obtain ⟨hvalid, hid⟩ : (proxyRequest K C d orgKey x).valid = true ∧
          ∀ y ∈ s.proxies, y.id ≠ d.newProxy := by simpa using hnew
      have harrives : ¬o.createProxy.arrives = true := fun harrives =>
        h ⟨hasks, hlist, harrives, hvalid, hid⟩
      have hfails : call o.createProxy
          (fun s : Server β ω => s.createProxy d.newProxy (proxyRequest K C d orgKey x)) s =
            .error .call s := by
        unfold call
        rw [if_neg harrives]
      rw [bind_of_error hfails]
      rfl
  · rw [bind_of_error hcall]
    rfl

/-- Nothing of an upload but that changes the proxies. -/
theorem afterUpload_asks (h : Asks m o id orgKey row x) :
    (afterUpload lib K C mask m o d s id).proxies =
      (finalState (exitProxy K C mask m o d orgKey x s)).proxies := by
  unfold afterUpload
  rw [uploadProfile_asks h]
  cases hexit : exitProxy K C mask m o d orgKey x s with
  | ok proxyId s' =>
    rw [bind_of_ok hexit, keeps_sendProfile]
    rfl
  | error e s' =>
    rw [bind_of_error hexit]
    rfl

/-- After an upload there is the proxy that it gets to create, or there are those that there were. -/
theorem afterUpload_cases (lib : PackLibrary) (K : KeyScheme Key η β ν π) (C : Codec String ν)
    (mask : String → String) (m : Machine ω) (o : Outcomes) (d : Draws η) (s : Server β ω)
    (id : String) :
    (∃ orgKey row x, MakesExit K C m o d s id orgKey row x ∧
      (afterUpload lib K C mask m o d s id).proxies = createdProxy K C d orgKey x :: s.proxies) ∨
    ((∀ orgKey row x, ¬MakesExit K C m o d s id orgKey row x) ∧
      (afterUpload lib K C mask m o d s id).proxies = s.proxies) := by
  by_cases hmakes : ∃ orgKey row x, MakesExit K C m o d s id orgKey row x
  · obtain ⟨orgKey, row, x, h⟩ := hmakes
    exact .inl ⟨orgKey, row, x, h, (afterUpload_asks h.toAsks).trans (exitProxy_made h)⟩
  · have hnone : ∀ orgKey row x, ¬MakesExit K C m o d s id orgKey row x :=
      fun orgKey row x h => hmakes ⟨orgKey, row, x, h⟩
    refine .inr ⟨hnone, ?_⟩
    by_cases hasks : ∃ orgKey row x, Asks m o id orgKey row x
    · obtain ⟨orgKey, row, x, hasks⟩ := hasks
      exact (afterUpload_asks hasks).trans (exitProxy_kept hasks (hnone orgKey row x))
    · obtain ⟨e, hfails⟩ := uploadProfile_not_asks lib K C mask d s
        fun orgKey row x h => hasks ⟨orgKey, row, x, h⟩
      rw [afterUpload, hfails]
      rfl

theorem Asks.leaves_eq {orgKey' : Key} {x' : LocalProxy} (h : Asks m o id orgKey row x)
    (hleaves : Leaves m id orgKey' x') : orgKey' = orgKey ∧ x' = x := by
  obtain ⟨hkey, row', hfound, hexit⟩ := hleaves
  obtain rfl := Option.some.inj (h.holdsKey.symm.trans hkey)
  obtain rfl := Option.some.inj (h.found.symm.trans hfound)
  exact ⟨rfl, (Option.some.inj (h.leaves.symm.trans hexit)).symm⟩

end Exits

/-- What an upload that succeeds leaves through is the local proxy. -/
theorem upload_attached {lib : PackLibrary} {K : KeyScheme Key η β ν π} {C : Codec String ν}
    {mask : String → String} {m : Machine ω} {o : Outcomes} {d : Draws η} {s : Server β ω}
    {id remoteId : String} {after : Server β ω}
    (h : uploadProfile lib K C mask m o d id s = .ok remoteId after) :
    ∃ orgKey x p y, Leaves m id orgKey x ∧
      lookup ServerProfile.id after.profiles remoteId = some p ∧
        lookup ServerProxy.id after.proxies p.proxyId = some y ∧ SameExit K C orgKey x y := by
  by_cases hcreates : ∃ orgKey row x, Creates K C m o d s id orgKey row x
  · obtain ⟨orgKey, row, x, hcreates⟩ := hcreates
    have hleaves : Leaves m id orgKey x :=
      ⟨hcreates.holdsKey, row, hcreates.found, hcreates.leaves⟩
    rcases uploadProfile_creates lib mask hcreates with
      ⟨-, bundle, -, ⟨-, -, hok⟩ | ⟨-, e, hfails⟩⟩ | ⟨-, e, hfails⟩
    · obtain ⟨rfl, rfl⟩ := EStateM.Result.ok.inj (h.symm.trans hok)
      refine ⟨orgKey, x, { createdRow d m row with bundle := some bundle },
        createdProxy K C d orgKey x, hleaves, ?_, ?_, sameExit_created⟩
      · exact List.find?_cons_of_pos (by simp [createdRow, uploadedRow])
      · exact List.find?_cons_of_pos (by simp [createdRow, uploadedRow, createdProxy])
    · rw [hfails] at h
      cases h
    · rw [hfails] at h
      cases h
  · obtain ⟨e, rest, hfails, -⟩ := uploadProfile_not_creates lib mask
      fun orgKey row x h => hcreates ⟨orgKey, row, x, h⟩
    rw [hfails] at h
    cases h

/-- An upload does what it has to about the exit just if no proxy of the organisation is the local
one whenever it gets to create one. -/
theorem exit_reused_iff (lib : PackLibrary) (K : KeyScheme Key η β ν π) (C : Codec String ν)
    (mask : String → String) (m : Machine ω) (o : Outcomes) (d : Draws η) (s : Server β ω)
    (id : String) : ReusesExit lib K C mask m o d s id ↔
      ∀ orgKey row x, MakesExit K C m o d s id orgKey row x →
        ∀ y ∈ s.proxies, ¬SameExit K C orgKey x y := by
  constructor
  · intro h orgKey row x hmakes y hy hsame
    have hids := h.reused orgKey x ⟨hmakes.holdsKey, row, hmakes.found, hmakes.leaves⟩ ⟨y, hy, hsame⟩
    rw [(afterUpload_asks hmakes.toAsks).trans (exitProxy_made hmakes)] at hids
    have hlength := congrArg List.length hids
    simp at hlength
  · intro hnone
    refine ⟨fun remoteId after => upload_attached, fun orgKey x hleaves hsome => ?_,
      fun orgKey x _ y hy _ => ?_⟩
    · rcases afterUpload_cases lib K C mask m o d s id with
        ⟨orgKey', row, x', hmakes, -⟩ | ⟨-, hkept⟩
      · obtain ⟨rfl, rfl⟩ := Asks.leaves_eq hmakes.toAsks hleaves
        obtain ⟨y, hy, hsame⟩ := hsome
        exact absurd hsame (hnone _ row _ hmakes y hy)
      · rw [hkept]
    · rcases afterUpload_cases lib K C mask m o d s id with
        ⟨orgKey', row, x', -, hmade⟩ | ⟨-, hkept⟩
      · exact ⟨y, by rw [hmade]; exact List.mem_cons_of_mem _ hy, rfl, rfl, rfl⟩
      · exact ⟨y, by rw [hkept]; exact hy, rfl, rfl, rfl⟩

/-- The organisation already has the proxy that the sample profile leaves through. -/
def servedBefore : Server (Key × (Key ⊕ ProxyCredentials String)) Unit :=
  let x : LocalProxy := ⟨"x", "Exit", "socks5", "exit.example", 1080, some "user", some "word"⟩
  ⟨[{ createdProxy paired besideKeys sampleDraws (List.replicate 32 0) x with id := "z" }], []⟩

theorem second_exit_made : ¬ReusesExit sampleLibrary paired besideKeys (fun host => host)
    (sampleMachine unopenedDisk) answered sampleDraws servedBefore "a" := by
  intro h
  have hids := h.reused (List.replicate 32 0)
    ⟨"x", "Exit", "socks5", "exit.example", 1080, some "user", some "word"⟩
    ⟨rfl, _, rfl, rfl⟩ ⟨_, List.mem_cons_self, rfl, rfl, rfl, rfl⟩
  have hlength := congrArg List.length hids
  clear h hids
  revert hlength
  decide

end FuryBrowser.ExitReuse
