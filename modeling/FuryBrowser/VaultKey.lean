import FuryBrowser.BundlePack
import FuryBrowser.GuardedRuns

/-!
# The vault's key while bundles are packed

The vault reads its key from the keychain the first time anything needs it and
keeps the answer, also a refusal, until an operator asks it to try again. Every
caller reads it under one lock, and between two readings any other caller may
come.

Packing reads it twice: once to wrap the data key, once to ask whether there
was a key to wrap it under. A bundle is handed out between neither.
-/

namespace FuryBrowser.VaultKey

open AgentDisk BundleUnpack BundlePack GuardedRuns

/-- `Key`: what the vault knows of its key. -/
inductive KeyState where
  | unread
  | haveKey (key : Key)
  /-- The keychain gave none. -/
  | failed
  deriving DecidableEq, Repr

/-- What `Vault::key` leaves, with the keychain's answer should it be asked. -/
def KeyState.read (answer : Option Key) : KeyState → KeyState
  | .unread =>
    match answer with
    | some key => .haveKey key
    | none => .failed
  | state => state

/-- The first half of `Vault::retry`; the second half reads. -/
def KeyState.retry : KeyState → KeyState
  | .failed => .unread
  | state => state

/-- The vault as a caller finds it after reading. -/
def KeyState.vault : KeyState → Vault
  | .haveKey key => ⟨some key⟩
  | _ => ⟨none⟩

/-- What one packing is asked for and draws. -/
structure Request where
  /-- The profile's shared key, for a team profile. -/
  shared : Option Key
  /-- The disk as the walk finds it. -/
  disk : Disk
  /-- The profile's directory. -/
  profileDir : Path
  drawn : Drawn
  deriving DecidableEq

/-- The sealer a request packs with. -/
def Request.sealer (request : Request) (state : KeyState) : Sealer :=
  match request.shared with
  | some key => .shared key (some state.vault)
  | none => .machine state.vault

/-- The vault after a request's sealer used it: a shared key asks for nothing. -/
def Request.reads (request : Request) (answer : Option Key) (state : KeyState) : KeyState :=
  if request.shared.isNone then state.read answer else state

/-- A packing whose data key has been through the sealer. -/
structure Packing where
  request : Request
  /-- The vault's key as the sealer found it. -/
  found : Option Key
  bundle : Sealed
  deriving DecidableEq

/-- The vault, the packings between their two readings, and what was handed out. -/
structure State where
  vault : KeyState
  /-- Sealed and not yet checked. -/
  packing : List Packing
  /-- Returned by `pack`. -/
  returned : List Packing
  deriving DecidableEq

/-- What can happen next. -/
inductive Label where
  /-- Any other caller reads the key: `prime`, the status, a value sealed or
  opened, the second half of a retry. -/
  | read (answer : Option Key)
  /-- The first half of a retry. -/
  | retry
  /-- A packing seals its bundle and wraps its key. -/
  | sealBundle (request : Request) (answer : Option Key)
  /-- A packing asks whether there is a key, and returns or fails. -/
  | check (i : ℕ) (answer : Option Key)

variable (lib : PackLibrary)

/-- One step of one thread. -/
def step (s : State) : Label → Option State
  | .read answer => some { s with vault := s.vault.read answer }
  | .retry => some { s with vault := s.vault.retry }
  | .sealBundle request answer =>
    let vault := request.reads answer s.vault
    match BundlePack.sealBundle lib (packedFiles request.disk request.profileDir)
        (request.sealer vault) request.drawn with
    | .ok bundle =>
      some { s with vault, packing := ⟨request, vault.vault.key, bundle⟩ :: s.packing }
    | .error _ => some s
  | .check i answer =>
    match s.packing[i]? with
    | none => none
    | some p =>
      let vault := p.request.reads answer s.vault
      match checkSealer (p.request.sealer vault) p.bundle with
      | .ok bundle =>
        some ⟨vault, s.packing.eraseIdx i, { p with bundle } :: s.returned⟩
      | .error _ => some { s with vault, packing := s.packing.eraseIdx i }

/-- The agent as it starts. -/
def Start (s : State) : Prop := s = ⟨.unread, [], []⟩

/-- A packing for this machine whose sealer found no key. -/
def PassedThrough (p : Packing) : Prop := p.request.shared = none ∧ p.found = none

/-- What the keychain answers in a step, should the step ask it. -/
def Label.answer (s : State) : Label → Option Key
  | .read answer => answer
  | .retry => none
  | .sealBundle request answer => if request.shared.isNone then answer else none
  | .check i answer =>
    (s.packing[i]?).bind fun p => if p.request.shared.isNone then answer else none

/-- No reading of the keychain succeeds while a packing that found no key is
between its two readings. -/
def Guard (s : State) (label : Label) : Prop :=
  s.vault = .unread → (label.answer s).isSome → ∀ p ∈ s.packing, ¬PassedThrough p

instance (p : Packing) : Decidable (PassedThrough p) := inferInstanceAs (Decidable (_ ∧ _))

instance (s : State) (label : Label) : Decidable (Guard s label) :=
  inferInstanceAs (Decidable (_ → _ → ∀ p ∈ s.packing, _))

/-- A bundle's data key is wrapped under the key that is there for it. -/
def Protected (vault : KeyState) (p : Packing) : Prop :=
  match p.request.shared with
  | some key => WrappedUnder lib sharedPrefix key p.request.drawn p.bundle.wrappedKey
  | none => ∃ key, vault = .haveKey key ∧
      WrappedUnder lib vaultPrefix key p.request.drawn p.bundle.wrappedKey

section Keys

variable {lib} {state state' : KeyState} {answer : Option Key} {key : Key} {p : Packing}

/-- A key that was read stays. -/
def Keeps (state state' : KeyState) : Prop :=
  ∀ key, state = .haveKey key → state' = .haveKey key

/-- Reading the key keeps one that is there, and finds a new one only when the
keychain is asked and gives it. -/
theorem read_cases (answer : Option Key) (state : KeyState) :
    Keeps state (state.read answer) ∧
      ∀ key, state.read answer = .haveKey key →
        state = .haveKey key ∨ state = .unread ∧ answer = some key := by
  cases state with
  | haveKey key => exact ⟨fun _ h => h, fun _ h => .inl h⟩
  | failed => exact ⟨fun _ h => (by cases h), fun _ h => (by cases h)⟩
  | unread =>
    refine ⟨fun _ h => (by cases h), fun key h => .inr ⟨rfl, ?_⟩⟩
    cases answer with
    | none => cases h
    | some k =>
      cases h
      rfl

theorem vault_key : state.vault.key = some key ↔ state = .haveKey key := by
  cases state <;> simp [KeyState.vault]

/-- A protected bundle stays protected while the key stays. -/
theorem Protected.keep (h : Protected lib state p) (hkeep : Keeps state state') :
    Protected lib state' p := by
  unfold Protected at h ⊢
  split at h
  · exact h
  · obtain ⟨key, hkey, hwrapped⟩ := h
    exact ⟨key, hkeep key hkey, hwrapped⟩

end Keys

section Runs

variable {lib} {s t : State} {v : KeyState} {label : Label}

variable (lib) in
/-- A packing between its two readings: its key is wrapped, or there was no key
and there still is none. -/
def Waiting (vault : KeyState) (p : Packing) : Prop :=
  Protected lib vault p ∨ PassedThrough p ∧ ∀ key, vault ≠ .haveKey key

variable (lib) in
/-- Every packing waits so, and everything returned is protected. -/
structure Sound (s : State) : Prop where
  /-- Between the two readings. -/
  waiting : ∀ p ∈ s.packing, Waiting lib s.vault p
  guarded : ∀ p ∈ s.returned, Protected lib s.vault p

/-- The vault may change as long as a key stays, and none is found while a
packing that found none waits. -/
theorem Sound.vault (h : Sound lib s) (hkeep : Keeps s.vault v)
    (hnew : ∀ key, v = .haveKey key →
      s.vault = .haveKey key ∨ ∀ p ∈ s.packing, ¬PassedThrough p) :
    Sound lib { s with vault := v } := by
  refine ⟨fun p hp => ?_, fun p hp => (h.guarded p hp).keep hkeep⟩
  rcases h.waiting p hp with hprot | ⟨hpass, hnone⟩
  · exact .inl (hprot.keep hkeep)
  · refine .inr ⟨hpass, fun key hkey => ?_⟩
    rcases hnew key hkey with hold | hfree
    · exact hnone key hold
    · exact hfree p hp hpass

/-- A guarded reading of the key keeps the vault sound. -/
theorem Sound.read (h : Sound lib s) {answer : Option Key}
    (hg : s.vault = .unread → answer.isSome → ∀ p ∈ s.packing, ¬PassedThrough p) :
    Sound lib { s with vault := s.vault.read answer } := by
  obtain ⟨hkeep, hnew⟩ := read_cases answer s.vault
  refine h.vault hkeep fun key hkey => ?_
  rcases hnew key hkey with hold | ⟨hunread, hanswer⟩
  · exact .inl hold
  · exact .inr (hg hunread (hanswer ▸ rfl))

/-- The same for the reading a packing does itself. -/
theorem Sound.reads (h : Sound lib s) (request : Request) {answer : Option Key}
    (hg : s.vault = .unread → (if request.shared.isNone then answer else none).isSome →
      ∀ p ∈ s.packing, ¬PassedThrough p) :
    Sound lib { s with vault := request.reads answer s.vault } := by
  unfold Request.reads
  split
  next hm => exact h.read fun hunread hsome => hg hunread (by rw [if_pos hm]; exact hsome)
  · exact h

/-- Of the packings that wait, those that find a key at the second reading are
protected. -/
theorem Waiting.available {p : Packing} (h : Waiting lib v p)
    (ha : available (p.request.sealer v) = true) : Protected lib v p := by
  rcases h with hprot | ⟨⟨hmachine, -⟩, hnone⟩
  · exact hprot
  · unfold Request.sealer at ha
    rw [hmachine] at ha
    obtain ⟨key, hkey⟩ := Option.isSome_iff_exists.mp ha
    exact absurd (vault_key.mp hkey) (hnone key)

end Runs

section Samples

/-- A cipher that only adds a tag, and an archive of nothing. -/
def sampleLibrary : PackLibrary where
  decrypt _ _ body := some (body.drop 16)
  base64Decode := some
  readArchive _ := some []
  subkey key _ _ := key
  keyFingerprint _ := ""
  encrypt _ _ plain := some (List.replicate 16 0 ++ plain)
  base64Encode bytes := .ofList (bytes.map fun b => Char.ofNat b.toNat)
  writeArchive _ := []
  sha256 _ := []

theorem sampleLibrary_sealsKeys : SealsKeys sampleLibrary := fun _ _ _ _ => rfl

theorem zeroKey_length : (List.replicate 32 0 : Bytes).length = 32 := rfl

theorem zeroNonce_length : (List.replicate 24 0 : Bytes).length = nonceLen := rfl

/-- A profile of this machine, with every random byte zero. -/
def sampleRequest : Request :=
  ⟨none, [], ["profiles", "a"], List.replicate 32 0, List.replicate 24 0, List.replicate 24 0,
    zeroKey_length, zeroNonce_length, zeroNonce_length⟩

end Samples

end FuryBrowser.VaultKey
