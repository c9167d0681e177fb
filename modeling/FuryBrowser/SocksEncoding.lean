import FuryBrowser.RelayTunnel
import FuryBrowser.SocksWire

/-!
# What a SOCKS5 proxy reads of the relay

The relay writes a greeting, a login where it is asked for one, and a request. A server reads the
login, the password and the host back, as long as the length of each fits the byte before it: the
host's is checked, that of a login or a password is cut.
-/

namespace FuryBrowser.ProfileRelay

open AgentDisk TextBytes RelayStreams ProgramRules SocksWire ByteFields

section Messages

/-- The methods that are offered. -/
def offered (auth : Option Credentials) : Bytes := if auth.isSome then [0, 2] else [0]

/-- A login and its password. -/
def login (c : Credentials) : Bytes :=
  1 :: (fieldOf (bytesOf c.username) ++ fieldOf (bytesOf c.password))

/-- A request to connect to a name. -/
def request (host : Text) (port : ℕ) : Bytes :=
  [5, 1, 0, 3] ++ (fieldOf (bytesOf host) ++ bytes16 port)

end Messages

section Writing

variable {α β : Type} {x : Talk α} {part : Bytes} {auth : Option Credentials} {method : UInt8}
  {host : Text} {port : ℕ} {kind : UInt8}

/-- The program writes so much, or the beginning of it when a write fails. -/
def Speaks (x : Talk α) (part : Bytes) : Prop :=
  ∀ s, match x s with
    | .ok _ t => t.written = s.written ++ part ∧ (s.faults = [] → t.faults = [])
    | .error _ t => ∃ more, t.written = s.written ++ more ∧ more <+: part ∧
        (s.faults = [] → more = part)

theorem writeAll_speaks (bytes : Bytes) : Speaks (writeAll bytes) bytes := by
  intro s
  unfold writeAll
  split
  · rename_i t hrun
    split at hrun
    · cases hrun
    · rename_i faults hfaults
      cases hrun
      exact ⟨rfl, fun hnone => by rw [hfaults] at hnone; cases hnone⟩
    · rename_i hfaults
      cases hrun
      exact ⟨rfl, fun _ => hfaults⟩
  · rename_i t hrun
    split at hrun
    · rename_i n e faults hfaults
      cases hrun
      exact ⟨bytes.take n, rfl, List.take_prefix n bytes,
        fun hnone => by rw [hfaults] at hnone; cases hnone⟩
    · cases hrun
    · cases hrun

theorem Speaks.pure {a : α} : Speaks (Pure.pure a) [] := fun s =>
  ⟨(List.append_nil s.written).symm, fun h => h⟩

theorem Speaks.throw {e : Stop} : Speaks (MonadExcept.throw e : Talk α) [] := fun s =>
  ⟨[], (List.append_nil s.written).symm, List.nil_prefix, fun _ => rfl⟩

/-- What follows an error is not written. -/
theorem Speaks.throw_bind {e : Stop} {f : β → Talk α} :
    Speaks (MonadExcept.throw e >>= f) [] := fun s =>
  ⟨[], (List.append_nil s.written).symm, List.nil_prefix, fun _ => rfl⟩

/-- What a sequence writes, when its second part writes nothing. -/
theorem Speaks.bind {f : α → Talk β} (h : Speaks x part) (hf : ∀ a, Speaks (f a) []) :
    Speaks (x >>= f) part := by
  intro s
  change match EStateM.bind x f s with
    | .ok _ t => t.written = s.written ++ part ∧ (s.faults = [] → t.faults = [])
    | .error _ t => ∃ more, t.written = s.written ++ more ∧ more <+: part ∧
        (s.faults = [] → more = part)
  unfold EStateM.bind
  have hfirst := h s
  cases hr : x s with
  | error e t =>
    rw [hr] at hfirst
    exact hfirst
  | ok a t =>
    rw [hr] at hfirst
    obtain ⟨hwritten, hfaults⟩ := hfirst
    have hrest := hf a t
    dsimp only
    cases hr' : f a t with
    | ok b t' =>
      rw [hr'] at hrest
      exact ⟨by rw [hrest.1, List.append_nil, hwritten], fun hnone => hrest.2 (hfaults hnone)⟩
    | error e t' =>
      rw [hr'] at hrest
      obtain ⟨more, hmore, hfront, -⟩ := hrest
      rw [List.prefix_nil.mp hfront, List.append_nil] at hmore
      exact ⟨part, by rw [hmore, hwritten], List.prefix_rfl, fun _ => rfl⟩

theorem Speaks.mapStop {f : Stop → Stop} (h : Speaks x part) : Speaks (mapStop f x) part := by
  intro s
  have hs := h s
  unfold RelayStreams.mapStop
  cases hr : x s with
  | ok a t =>
    rw [hr] at hs
    exact hs
  | error e t =>
    rw [hr] at hs
    exact hs

theorem readBlock_speaks (size : ℕ) : Speaks (readBlock size) [] := by
  intro s
  unfold readBlock
  split
  · rename_i t hrun
    split at hrun
    · cases hrun
      exact ⟨(List.append_nil _).symm, fun h => h⟩
    · split at hrun
      · cases hrun
        exact ⟨(List.append_nil _).symm, fun h => h⟩
      · cases hrun
      · cases hrun
  · rename_i t hrun
    split at hrun
    · cases hrun
    · split at hrun
      · cases hrun
      · cases hrun
        exact ⟨[], (List.append_nil _).symm, List.nil_prefix, fun _ => rfl⟩
      · cases hrun
        exact ⟨[], (List.append_nil _).symm, List.nil_prefix, fun _ => rfl⟩

end Writing

section Conversation

variable {host : Text} {port : ℕ} {auth : Option Credentials} {s : Stream}

/-- The method that the proxy answers. -/
def chosen (s : Stream) : UInt8 := s.arrivals.flatten.getD 1 0

/-- What a run writes. -/
def sent (host : Text) (port : ℕ) (auth : Option Credentials) (s : Stream) : Bytes :=
  (leaves (socks5Connect host port auth) s).written.drop s.written.length

/-- A method that leads on to the request. -/
def Leads (auth : Option Credentials) (method : UInt8) : Prop :=
  method = 0 ∨ method = 2 ∧ auth.isSome

end Conversation

section Understanding

variable {host : Text} {port : UInt16} {auth : Option Credentials} {s : Stream}

/-- A login and a password whose lengths fit a byte. -/
def Fits (auth : Option Credentials) : Prop :=
  ∀ c ∈ auth, (bytesOf c.username).length ≤ 255 ∧ (bytesOf c.password).length ≤ 255

/-- What is heard is what was meant. -/
structure Right (host : Text) (port : UInt16) (auth : Option Credentials) (h : Heard) : Prop where
  methods : ∀ m ∈ h.methods, m = offered auth
  login : ∀ l ∈ h.login, ∃ c, auth = some c ∧ l = (bytesOf c.username, bytesOf c.password)
  target : ∀ a ∈ h.target, a = (.name (bytesOf host), port.toNat)

/-- A proxy that asks for a login, and closes. -/
def asking : Stream := ⟨[[5, 2]], .closed, [], []⟩

end Understanding

end FuryBrowser.ProfileRelay
