import FuryBrowser.JsonTree
import FuryBrowser.LocalStore
import FuryBrowser.TextFields
import Mathlib.Data.List.Forall2

/-!
# What is remembered of an exit

A check, a diagnosis and a launch each learn something of the exit of a proxy, and write it to the
row of the proxy. What they learn depends on the checker's answer and on the database of places,
and every column is written, with whatever is known.
-/

namespace FuryBrowser.ExitRecords

open AgentDisk TextBytes TextFields RowTable LocalStore
open JsonTree (Json)

section Positions

/-- A power of ten. -/
def tenTo (e : ℤ) : ℚ :=
  if 0 ≤ e then (10 : ℚ) ^ e.toNat else 1 / (10 : ℚ) ^ (-e).toNat

/-- The digits of a number and its exponent. -/
def splitPower (text : Text) : Option (Text × ℤ) :=
  match splitOnceAny ['e', 'E'] text with
  | some (digits, power) =>
    let (sign, power) := splitSign power
    (decimalValue power).map fun e => (digits, sign * e)
  | none => some (text, 0)

/-- The number that `str::parse::<f64>` reads before it rounds it, unless it is not finite. -/
def parseFloat (text : Text) : Option ℚ :=
  let (sign, text) := splitSign text
  (splitPower text).bind fun (digits, power) =>
    let (whole, part) := (splitOnce '.' digits).getD (digits, [])
    (decimalValue (whole ++ part)).map fun n => sign * n * tenTo (power - part.length)

/-- The number that is read rounds to one in this range. -/
def rounds (bound slack q : ℚ) : Bool := -(bound + slack) ≤ q && q ≤ bound + slack

/-- `parse_location`. Half a unit in the last place of the bound rounds down to it. -/
def parseLocation (raw : Text) : Option (ℚ × ℚ) := do
  let (lat, lng) ← splitOnce ',' (trimText raw)
  let lat ← parseFloat (trimText lat)
  let lng ← parseFloat (trimText lng)
  if rounds 90 (1 / 2 ^ 47) lat && rounds 180 (1 / 2 ^ 46) lng then some (lat, lng) else none

/-- A text that is a position. -/
def isLocation (raw : String) : Bool := (parseLocation raw.toList).isSome

end Positions

section Checkers

/-- `Geo`, without the city. -/
structure Geo where
  country : Option String
  timezone : Option String
  location : Option String
  deriving DecidableEq, Repr

/-- `ExitFacts`. -/
structure ExitFacts where
  ip : Option String
  country : Option String
  timezone : Option String
  location : Option String
  deriving DecidableEq, Repr

/-- What comes back of the question to the checker. -/
inductive Reply where
  /-- A response, of status 502 or of another, and its JSON if that is what it holds. -/
  | response (badGateway : Bool) (body : Option Json)
  /-- None: nothing could be sent, or nothing came back. -/
  | failed

/-- What a machine looks exits up with. -/
structure Places where
  /-- `FURY_IP_CHECK`. -/
  checker : Option String
  /-- `geoip::lookup` of an address in a file, or nothing where it fails. -/
  lookup : String → String → Option Geo

variable (places : Places)

/-- The checker that is asked. -/
def endpoint (checkerUrl : Option String) : String :=
  ((checkerUrl.filter fun s => trim s ≠ "").or places.checker).getD "https://ipinfo.io/json"

/-- `split_checker`: the address to ask, and the file that knows places. -/
def splitChecker (resolved : String) : String × Option String :=
  if (splitOnceText "://".toList (trim resolved).toList).isSome then (trim resolved, none)
  else ("https://ipinfo.io/json", some (trim resolved))

/-- A text of the answer. -/
def answer (body : Json) (key : String) : Option String :=
  match body.get key with
  | some (.str s) => some s
  | _ => none

/-- The answer without a file. -/
def told (body : Json) : ExitFacts where
  ip := answer body "ip"
  country := answer body "country"
  timezone := answer body "timezone"
  location := answer body "loc"

/-- The file wins for each part it knows. -/
def overlaid (geo : Geo) (body : Json) : ExitFacts where
  ip := answer body "ip"
  country := geo.country.or (answer body "country")
  timezone := geo.timezone.or (answer body "timezone")
  location := (geo.location.filter isLocation).or (answer body "loc")

/-- The answer and the file together, or nothing where the file was to be asked and fails. -/
def consulted (checkerUrl : Option String) (body : Json) : Option ExitFacts :=
  match (splitChecker (endpoint places checkerUrl)).2, answer body "ip" with
  | some file, some ip => (places.lookup file ip).map fun geo => overlaid geo body
  | _, _ => some (told body)

/-- `proxies.check`, as far as it learns something. -/
def checkExit (checkerUrl : Option String) : Reply → Option ExitFacts
  | .response false body => consulted places checkerUrl (body.getD .null)
  | .response true _ | .failed => none

/-- `fetch_exit`: it does not ask for the position. -/
def fetchExit (checkerUrl : Option String) : Reply → Option ExitFacts
  | .response _ (some body) =>
    (consulted places checkerUrl body).map fun facts => { facts with location := none }
  | .response _ none | .failed => none

/-- `resolve_exit`: a file that fails does not throw the answer away. -/
def resolveExit (checkerUrl : Option String) : Reply → Option ExitFacts
  | .response _ (some body) =>
    let facts := (consulted places checkerUrl body).getD (told body)
    some { facts with location := facts.location.filter isLocation }
  | .response _ none | .failed => none

end Checkers

section Requests

variable {ω : Type} (places : Places)

/-- What ends in a row of an exit. -/
inductive Request where
  /-- `record_exit` itself. -/
  | record (id : String) (facts : ExitFacts)
  /-- `proxies.check`. -/
  | check (id checkerUrl : Option String) (reply : Reply)
  /-- `proxies.diagnose`. -/
  | diagnose (id checkerUrl : Option String) (reply : Reply)
  /-- `launch`, of a profile with the proxy it was read with. -/
  | launch (proxy : Option Proxy) (wantTimezone wantLanguages : Bool) (reply : Reply)

/-- The checker of a stored proxy. -/
def storedChecker (db : Db ω) (id : String) : Option String :=
  ((db.proxies.filter fun x => !x.deleted).find? fun x => x.id = id).bind ProxyRow.checkerUrl

/-- A launch asks when something it is to say is not known. -/
def asks (proxy : Option Proxy) (wantTimezone wantLanguages : Bool) : Bool :=
  wantTimezone && (proxy.bind Proxy.lastTimezone).isNone ||
    wantLanguages && (proxy.bind Proxy.lastCountry).isNone ||
    (proxy.bind Proxy.lastLocation).isNone

/-- The exit that is recorded, and of which proxy. -/
def observation (db : Db ω) : Request → Option (String × ExitFacts)
  | .record id facts => some (id, facts)
  | .check id checkerUrl reply =>
    id.bind fun id => (checkExit places checkerUrl reply).map fun facts => (id, facts)
  | .diagnose id checkerUrl reply =>
    id.bind fun id =>
      (fetchExit places (checkerUrl.or (storedChecker db id)) reply).map fun facts => (id, facts)
  | .launch proxy wantTimezone wantLanguages reply =>
    if asks proxy wantTimezone wantLanguages then
      proxy.bind fun px =>
        (resolveExit places px.checkerUrl reply).map fun facts => (px.id, facts)
    else none

/-- What a request leaves in the tables. -/
def run (db : Db ω) (request : Request) : Db ω :=
  match observation places db request with
  | some (id, facts) =>
    db.recordExit id facts.ip facts.country facts.timezone facts.location
  | none => db

end Requests

section Parts

/-- A part of what is remembered. -/
inductive Part where
  | address
  | country
  | timezone
  | location
  deriving DecidableEq, Repr

/-- What an exit says of a part. -/
def Part.known (facts : ExitFacts) : Part → Option String
  | .address => facts.ip
  | .country => facts.country
  | .timezone => facts.timezone
  | .location => facts.location

/-- What a row holds of it. -/
def Part.stored (x : ProxyRow) : Part → Option String
  | .address => x.lastIp
  | .country => x.lastCountry
  | .timezone => x.lastTimezone
  | .location => x.lastLocation

/-- What is not known now is in the row as it was. -/
def Keeps (facts : Option ExitFacts) (before after : ProxyRow) : Prop :=
  ∀ part : Part, facts.bind part.known = none → part.stored after = part.stored before

/-- A row of which an exit is recorded. -/
def recorded (facts : ExitFacts) (x : ProxyRow) : ProxyRow := {
  x with
  lastIp := facts.ip
  lastCountry := facts.country
  lastTimezone := facts.timezone
  lastLocation := facts.location }

variable {ω : Type} {places : Places} {db : Db ω} {request : Request} {facts : ExitFacts}
  {id : String} {x : ProxyRow} {part : Part}

@[simp] theorem stored_recorded : part.stored (recorded facts x) = part.known facts := by
  cases part <;> rfl

theorem Keeps.refl (facts : Option ExitFacts) (x : ProxyRow) : Keeps facts x x := fun _ _ => rfl

/-- Recording keeps what is unknown exactly where there is nothing to keep. -/
theorem keeps_recorded_iff :
    Keeps (some facts) x (recorded facts x) ↔
      ∀ part : Part, part.known facts = none → part.stored x = none := by
  constructor
  · intro h part hnone
    rw [← h part hnone, stored_recorded, hnone]
  · intro h part hnone
    rw [stored_recorded, h part hnone]
    exact hnone

theorem run_of_none (h : observation places db request = none) : run places db request = db := by
  simp only [run, h]

theorem run_of_some (h : observation places db request = some (id, facts)) :
    run places db request =
      { db with proxies := updateWhere (fun x => x.id = id) (recorded facts) db.proxies } := by
  simp only [run, h]
  rfl

end Parts

section Rows

variable {ω : Type} {places : Places} {db : Db ω} {request : Request}

/-- Every row keeps what is not known of its exit exactly when the row that is written to holds
nothing of what the new exit leaves open. -/
theorem unknown_parts_kept_iff :
    List.Forall₂ (Keeps ((observation places db request).map Prod.snd)) db.proxies
        (run places db request).proxies ↔
      ∀ id facts, observation places db request = some (id, facts) →
        ∀ x ∈ db.proxies, x.id = id →
          ∀ part : Part, part.known facts = none → part.stored x = none := by
  cases hobs : observation places db request with
  | none =>
    rw [run_of_none hobs]
    simp [List.forall₂_same, Keeps.refl]
  | some pair =>
    obtain ⟨id, facts⟩ := pair
    rw [run_of_some hobs, updateWhere, List.forall₂_map_right_iff, List.forall₂_same]
    constructor
    · rintro h _ _ ⟨rfl, rfl⟩ x hx hid
      have hkeeps := h x hx
      rw [if_pos (by simpa using hid)] at hkeeps
      exact keeps_recorded_iff.mp hkeeps
    · intro h x hx
      by_cases hid : x.id = id
      · rw [if_pos (by simpa using hid)]
        exact keeps_recorded_iff.mpr (h id facts rfl x hx hid)
      · rw [if_neg (by simpa using hid)]
        exact .refl _ x

/-- A proxy whose exit is known whole. -/
def berlin : ProxyRow where
  id := "p1"
  name := "Berlin"
  kind := "socks5"
  host := "proxy.example"
  port := 1080
  username := none
  password := none
  rotateUrl := none
  checkerUrl := none
  lastIp := some "203.0.113.7"
  lastCountry := some "DE"
  lastTimezone := some "Europe/Berlin"
  lastLocation := some "52.52,13.405"
  deleted := false

/-- A diagnosis that passes takes the position away that the row had. -/
theorem diagnosis_erases_position :
    ¬ ∀ (places : Places) (db : Db Unit) (request : Request),
      List.Forall₂ (Keeps ((observation places db request).map Prod.snd)) db.proxies
        (run places db request).proxies := by
  intro h
  have hrow := h ⟨none, fun _ _ => none⟩ ⟨[], [berlin], [], []⟩
    (.diagnose (some "p1") (some "https://ipinfo.io/json") (.response false (some (.obj
      [("ip", .str "203.0.113.7"), ("country", .str "DE"), ("loc", .str "52.52,13.405")]))))
  have hkeeps : Keeps _ berlin _ := (List.forall₂_cons.mp hrow).1
  have hlost : (none : Option String) = some "52.52,13.405" := hkeeps .location rfl
  cases hlost

end Rows

end FuryBrowser.ExitRecords
