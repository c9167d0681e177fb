import FuryBrowser.TeamLaunch
import FuryBrowser.TextLines

/-!
# The arguments of the browser

The browser is told where its profile is, which relay it goes through, which extensions it loads
and what it may not do, all by switches, and after them come the pages it starts with. It reads
whatever begins with a dash as a switch, and of two switches with one name the later one. So the
switches are the agent's own as long as no page begins with a dash.
-/

namespace FuryBrowser.LaunchArguments

open AgentDisk TextBytes TextLines
open TeamLaunch (LaunchRestrictions)

/-- `LaunchSpec`, as far as the arguments are made of it. Paths are bytes. -/
structure LaunchSpec where
  userDataDir : Bytes
  relayPort : ℕ
  restrictions : LaunchRestrictions
  /-- The pages it starts with. -/
  startUrls : List Text
  /-- The directories of the extensions. -/
  extensions : List Bytes
  /-- The debugging port, if one is asked for. -/
  debugPort : Option ℕ
  /-- The language of the browser. -/
  uiLocale : Text
  deriving DecidableEq, Repr

section Arguments

/-- A switch without a value. -/
def bare (name : String) : Text := "--".toList ++ name.toList

/-- A switch with one. -/
def valued (name : String) (value : Text) : Text := "--".toList ++ (name.toList ++ '=' :: value)

/-- A number as text. -/
def digits (n : ℕ) : Text := (toString n).toList

/-- `Path::display`: what is not UTF-8 is replaced. -/
def display (path : Bytes) : Text := fromUtf8Lossy path

/-- `join(",")`. -/
def commaJoin : List Text → Text
  | [] => []
  | [text] => text
  | text :: rest => text ++ ',' :: commaJoin rest

/-- The address of the relay. -/
def relayAddress (port : ℕ) : Text := "http://127.0.0.1:".toList ++ digits port

/-- The switches of every launch. -/
def everyLaunch (spec : LaunchSpec) : List Text :=
  [valued "user-data-dir" (display spec.userDataDir),
    valued "proxy-server" (relayAddress spec.relayPort),
    valued "proxy-bypass-list" "<-loopback>".toList,
    bare "no-default-browser-check",
    bare "no-first-run",
    bare "restore-last-session",
    bare "disable-background-networking",
    bare "disable-domain-reliability",
    bare "disable-breakpad",
    bare "safebrowsing-disable-auto-update",
    bare "disable-quic",
    bare "disable-field-trial-config",
    valued "lang" spec.uiLocale]

/-- Those of the extensions. -/
def extensionSwitches (extensions : List Bytes) : List Text :=
  if extensions = [] then []
  else
    let list := commaJoin (extensions.map display)
    [valued "disable-extensions-except" list, valued "load-extension" list]

/-- Those of what may not be done, and of the debugging port. -/
def restrictionSwitches (restrictions : LaunchRestrictions) (debugPort : Option ℕ) : List Text :=
  (if restrictions.lockDevtools then [bare "fury-lock-devtools"] else []) ++
    (if restrictions.lockDataExport then [bare "fury-lock-data-export"] else []) ++
    match debugPort with
    | some port =>
      if restrictions.denyCdp then []
      else [valued "remote-debugging-port" (digits port), valued "remote-allow-origins" ['*']]
    | none => []

/-- The switches that the agent decides. -/
def ownArgs (spec : LaunchSpec) : List Text :=
  everyLaunch spec ++ extensionSwitches spec.extensions ++
    restrictionSwitches spec.restrictions spec.debugPort

/-- `build_args`. -/
def buildArgs (spec : LaunchSpec) : List Text := ownArgs spec ++ spec.startUrls

/-- `start_urls_for`: the pages are for the first time the profile is opened. -/
def startUrlsFor (opened : Bool) (configured : List Text) (startPage : Text) : List Text :=
  if opened then [] else if configured = [] then [startPage] else configured

/-- What `launch` starts the browser with. -/
def launchSpec (dir : Bytes) (relayPort : ℕ) (restrictions : LaunchRestrictions) (opened : Bool)
    (configured : List Text) (startPage : Text) (extensions : List Bytes) (cdp : Bool)
    (uiLocale : Text) : LaunchSpec :=
  ⟨dir, relayPort, restrictions, startUrlsFor opened configured startPage, extensions,
    if cdp && !restrictions.denyCdp then some 0 else none, uiLocale⟩

end Arguments

section Reading

/-- A switch. -/
structure Switch where
  name : Text
  /-- Its value, if it has one. -/
  value : Option Text
  deriving DecidableEq, Repr

/-- What an argument is read as: a switch if it begins with a dash. -/
def readSwitch : Text → Option Switch
  | '-' :: rest =>
    let body := match rest with
      | '-' :: more => more
      | _ => rest
    match splitOnce '=' body with
    | some (name, value) => some ⟨name, some value⟩
    | none => some ⟨body, none⟩
  | _ => none

/-- The switches among some arguments. -/
def switches (args : List Text) : List Switch := args.filterMap readSwitch

/-- And the pages. -/
def pages (args : List Text) : List Text := args.filter fun arg => (readSwitch arg).isNone

/-- Of two switches with one name the later one. -/
def lastOf (name : String) (found : List Switch) : Option Switch :=
  found.reverse.find? fun s => s.name = name.toList

/-- The directories that a switch names. -/
def dirsOf (name : String) (found : List Switch) : List Bytes :=
  match lastOf name found with
  | some ⟨_, some value⟩ => (splitAt ',' value).map bytesOf
  | _ => []

/-- A word is part of a text. -/
def mentions (word : Text) : Text → Bool
  | [] => word.isEmpty
  | c :: rest => word.isPrefixOf (c :: rest) || mentions word rest

/-- A switch that sets what the browser goes through. -/
def Switch.isProxy (s : Switch) : Bool := mentions "proxy".toList s.name

/-- A switch that opens the browser to a debugger. -/
def Switch.isDebugging (s : Switch) : Bool := mentions "remote-debugging".toList s.name

end Reading

/-- What the arguments have to be. -/
structure Sound (spec : LaunchSpec) : Prop where
  /-- No switch is there that the agent has not decided. -/
  own : switches (buildArgs spec) = switches (ownArgs spec)
  /-- A debugger is let in only if the restrictions allow it. -/
  debugging : ∀ s ∈ switches (buildArgs spec), s.isDebugging = true →
    spec.restrictions.denyCdp = false
  /-- The browser goes through the relay and nothing else. -/
  proxy : (switches (buildArgs spec)).filter Switch.isProxy =
    [⟨"proxy-server".toList, some (relayAddress spec.relayPort)⟩,
      ⟨"proxy-bypass-list".toList, some "<-loopback>".toList⟩]
  /-- The pages are the pages. -/
  pages : pages (buildArgs spec) = spec.startUrls
  /-- The extensions are those that are installed. -/
  loaded : dirsOf "load-extension" (switches (buildArgs spec)) = spec.extensions
  allowed : dirsOf "disable-extensions-except" (switches (buildArgs spec)) = spec.extensions

section Switches

variable {name : String} {value : Text} {spec : LaunchSpec} {args more : List Text}

variable (name value) in
/-- A switch with a value is read as it was meant, if its name has no equals sign. -/
theorem readSwitch_valued (h : '=' ∉ name.toList) :
    readSwitch (valued name value) = some ⟨name.toList, some value⟩ := by
  have hshape : valued name value = '-' :: '-' :: (name.toList ++ '=' :: value) := rfl
  rw [hshape, readSwitch]
  simp only [splitOnce_append h]

/-- What a name is free of, read off its characters. -/
theorem free (chars : List Char) (h : '=' ∉ chars) : '=' ∉ (String.ofList chars).toList := by
  rwa [String.toList_ofList]

variable (name) in
theorem readSwitch_bare (h : '=' ∉ name.toList) :
    readSwitch (bare name) = some ⟨name.toList, none⟩ := by
  have hshape : bare name = '-' :: '-' :: name.toList := rfl
  rw [hshape, readSwitch]
  simp only [splitOnce_of_notMem h]

@[simp] theorem switches_append : switches (args ++ more) = switches args ++ switches more :=
  List.filterMap_append

@[simp] theorem pages_append : pages (args ++ more) = pages args ++ pages more :=
  List.filter_append ..

/-- The switches of every launch, as they are read. -/
theorem switches_everyLaunch : switches (everyLaunch spec) =
    [⟨"user-data-dir".toList, some (display spec.userDataDir)⟩,
      ⟨"proxy-server".toList, some (relayAddress spec.relayPort)⟩,
      ⟨"proxy-bypass-list".toList, some "<-loopback>".toList⟩,
      ⟨"no-default-browser-check".toList, none⟩,
      ⟨"no-first-run".toList, none⟩,
      ⟨"restore-last-session".toList, none⟩,
      ⟨"disable-background-networking".toList, none⟩,
      ⟨"disable-domain-reliability".toList, none⟩,
      ⟨"disable-breakpad".toList, none⟩,
      ⟨"safebrowsing-disable-auto-update".toList, none⟩,
      ⟨"disable-quic".toList, none⟩,
      ⟨"disable-field-trial-config".toList, none⟩,
      ⟨"lang".toList, some spec.uiLocale⟩] := by
  simp only [switches, everyLaunch, List.filterMap_cons, List.filterMap_nil,
    readSwitch_valued "user-data-dir" _ (free _ (by decide)),
    readSwitch_valued "proxy-server" _ (free _ (by decide)),
    readSwitch_valued "proxy-bypass-list" _ (free _ (by decide)),
    readSwitch_bare "no-default-browser-check" (free _ (by decide)),
    readSwitch_bare "no-first-run" (free _ (by decide)),
    readSwitch_bare "restore-last-session" (free _ (by decide)),
    readSwitch_bare "disable-background-networking" (free _ (by decide)),
    readSwitch_bare "disable-domain-reliability" (free _ (by decide)),
    readSwitch_bare "disable-breakpad" (free _ (by decide)),
    readSwitch_bare "safebrowsing-disable-auto-update" (free _ (by decide)),
    readSwitch_bare "disable-quic" (free _ (by decide)),
    readSwitch_bare "disable-field-trial-config" (free _ (by decide)),
    readSwitch_valued "lang" _ (free _ (by decide))]

theorem switches_extensions {extensions : List Bytes} :
    switches (extensionSwitches extensions) = if extensions = [] then [] else
      [⟨"disable-extensions-except".toList, some (commaJoin (extensions.map display))⟩,
        ⟨"load-extension".toList, some (commaJoin (extensions.map display))⟩] := by
  unfold extensionSwitches
  split
  · rfl
  · simp only [switches, List.filterMap_cons, List.filterMap_nil]
    rw [readSwitch_valued "disable-extensions-except" _ (by simp),
      readSwitch_valued "load-extension" _ (by simp)]

/-- Those of what may not be done, and of the debugging port. -/
theorem switches_restrictions {restrictions : LaunchRestrictions} {debugPort : Option ℕ} :
    switches (restrictionSwitches restrictions debugPort) =
      (if restrictions.lockDevtools then [⟨"fury-lock-devtools".toList, none⟩] else []) ++
        (if restrictions.lockDataExport then [⟨"fury-lock-data-export".toList, none⟩] else []) ++
        match debugPort with
        | some port =>
          if restrictions.denyCdp then []
          else [⟨"remote-debugging-port".toList, some (digits port)⟩,
            ⟨"remote-allow-origins".toList, some ['*']⟩]
        | none => [] := by
  have hdevtools := readSwitch_bare "fury-lock-devtools" (by simp)
  have hexport := readSwitch_bare "fury-lock-data-export" (by simp)
  have hport (port : ℕ) := readSwitch_valued "remote-debugging-port" (digits port) (by simp)
  have horigins := readSwitch_valued "remote-allow-origins" ['*'] (by simp)
  unfold restrictionSwitches
  rw [switches_append, switches_append]
  congr 1
  · congr 1
    · split
      · simp only [switches, List.filterMap_cons, hdevtools, List.filterMap_nil]
      · rfl
    · split
      · simp only [switches, List.filterMap_cons, hexport, List.filterMap_nil]
      · rfl
  · cases debugPort with
    | none => rfl
    | some port =>
      dsimp only
      split
      · rfl
      · simp only [switches, List.filterMap_cons, hport, horigins, List.filterMap_nil]

/-- Of two lists the later one counts. -/
theorem lastOf_append {found later : List Switch} :
    lastOf name (found ++ later) = (lastOf name later).or (lastOf name found) := by
  rw [lastOf, List.reverse_append, List.find?_append]
  rfl

variable (spec) in
/-- None of the agent's switches but the relay's two is about a proxy. -/
theorem proxy_own : (switches (ownArgs spec)).filter Switch.isProxy =
    [⟨"proxy-server".toList, some (relayAddress spec.relayPort)⟩,
      ⟨"proxy-bypass-list".toList, some "<-loopback>".toList⟩] := by
  have hextensions : (switches (extensionSwitches spec.extensions)).filter Switch.isProxy = [] := by
    rw [switches_extensions]
    split <;> rfl
  have hrestrictions : (switches (restrictionSwitches spec.restrictions spec.debugPort)).filter
      Switch.isProxy = [] := by
    rw [switches_restrictions]
    obtain ⟨deny, devtools, dataExport, wipe, autofill⟩ := spec.restrictions
    cases devtools <;> cases dataExport <;> cases spec.debugPort <;> cases deny <;> rfl
  rw [ownArgs, switches_append, switches_append, List.filter_append, List.filter_append,
    hextensions, hrestrictions, switches_everyLaunch, List.append_nil, List.append_nil]
  rfl

variable (spec) in
/-- A debugger is let in by none of them unless it may be. -/
theorem debugging_own : ∀ s ∈ switches (ownArgs spec), s.isDebugging = true →
    spec.restrictions.denyCdp = false := by
  intro s hs hdebugging
  have hin : s ∈ (switches (ownArgs spec)).filter Switch.isDebugging :=
    List.mem_filter.mpr ⟨hs, hdebugging⟩
  have hextensions :
      (switches (extensionSwitches spec.extensions)).filter Switch.isDebugging = [] := by
    rw [switches_extensions]
    split <;> rfl
  have hevery : (switches (everyLaunch spec)).filter Switch.isDebugging = [] := by
    rw [switches_everyLaunch]
    rfl
  rw [ownArgs, switches_append, switches_append, List.filter_append, List.filter_append,
    hextensions, hevery, switches_restrictions] at hin
  generalize spec.restrictions = restrictions at hin ⊢
  generalize spec.debugPort = debugPort at hin
  obtain ⟨deny, devtools, dataExport, wipe, autofill⟩ := restrictions
  cases deny with
  | false => rfl
  | true => cases devtools <;> cases dataExport <;> cases debugPort <;> cases hin

variable (spec) in
/-- The agent names the extensions that are installed, one after the other. -/
theorem lastOf_own (h : name = "load-extension" ∨ name = "disable-extensions-except") :
    lastOf name (switches (ownArgs spec)) = if spec.extensions = [] then none else
      some ⟨name.toList, some (commaJoin (spec.extensions.map display))⟩ := by
  have hevery : lastOf name (switches (everyLaunch spec)) = none := by
    rw [switches_everyLaunch]
    rcases h with rfl | rfl <;> simp [lastOf, String.toList_inj, -String.reduceToList]
  have hrestrictions :
      lastOf name (switches (restrictionSwitches spec.restrictions spec.debugPort)) = none := by
    rw [switches_restrictions]
    obtain ⟨deny, devtools, dataExport, wipe, autofill⟩ := spec.restrictions
    rcases h with rfl | rfl <;> cases devtools <;> cases dataExport <;> cases spec.debugPort <;>
      cases deny <;> rfl
  rw [ownArgs, switches_append, switches_append, lastOf_append, lastOf_append, hevery,
    hrestrictions, switches_extensions]
  split
  · rfl
  · rcases h with rfl | rfl <;> rfl

end Switches

section Commas

variable {texts : List Text} {dirs : List Bytes}

/-- A list that was joined is split where each of its texts is. -/
theorem splitAt_commaJoin (h : texts ≠ []) :
    splitAt ',' (commaJoin texts) = texts.flatMap (splitAt ',') := by
  induction texts with
  | nil => exact absurd rfl h
  | cons text rest ih =>
    cases rest with
    | nil => simp [commaJoin]
    | cons next more =>
      rw [commaJoin, splitAt_append, ih (by simp)]
      · rfl
      · simp

theorem splitAt_length (text : Text) : 1 ≤ (splitAt ',' text).length ∧
    ((splitAt ',' text).length = 1 → ',' ∉ text) := by
  have hne : splitAt ',' text ≠ [] := splitAt_ne_nil text
  refine ⟨List.length_pos_iff.mpr hne, fun hone hin => ?_⟩
  obtain ⟨a, b, rfl⟩ := List.append_of_mem hin
  rw [splitAt_append, List.length_append] at hone
  have ha : 0 < (splitAt ',' a).length := List.length_pos_iff.mpr (splitAt_ne_nil a)
  have hb : 0 < (splitAt ',' b).length := List.length_pos_iff.mpr (splitAt_ne_nil b)
  omega

/-- What was joined is split into as many texts only if none has a comma. -/
theorem no_comma (h : (texts.flatMap (splitAt ',')).length ≤ texts.length) :
    ∀ text ∈ texts, ',' ∉ text := by
  induction texts with
  | nil => nofun
  | cons text rest ih =>
    have hlonger : ∀ more : List Text, more.length ≤ (more.flatMap (splitAt ',')).length := by
      intro more
      induction more with
      | nil => exact Nat.zero_le _
      | cons a more ih =>
        have hone := (splitAt_length a).1
        simp only [List.flatMap_cons, List.length_append, List.length_cons]
        omega
    have hrest := hlonger rest
    obtain ⟨hone, hno⟩ := splitAt_length text
    simp only [List.flatMap_cons, List.length_append, List.length_cons] at h
    intro t ht
    rcases List.mem_cons.mp ht with rfl | ht
    · exact hno (by omega)
    · exact ih (by omega) t ht

theorem flatMap_splitAt (h : ∀ text ∈ texts, ',' ∉ text) : texts.flatMap (splitAt ',') = texts := by
  induction texts with
  | nil => rfl
  | cons text rest ih =>
    rw [List.flatMap_cons, splitAt_of_notMem (h text List.mem_cons_self),
      ih fun t ht => h t (List.mem_cons_of_mem _ ht)]
    rfl

/-- Directories that were joined are split into themselves exactly if they are UTF-8 and have no
comma. -/
theorem split_dirs_iff (hne : dirs ≠ []) :
    (splitAt ',' (commaJoin (dirs.map display))).map bytesOf = dirs ↔
      ∀ dir ∈ dirs, reread dir = dir ∧ ',' ∉ display dir := by
  have hmap : dirs.map display ≠ [] := by simpa using hne
  rw [splitAt_commaJoin hmap]
  constructor
  · intro h
    have hlength := congrArg List.length h
    simp only [List.length_map] at hlength
    have hcommas : ∀ text ∈ dirs.map display, ',' ∉ text := no_comma (by
      rw [hlength, List.length_map])
    rw [flatMap_splitAt hcommas, List.map_map] at h
    intro dir hdir
    refine ⟨?_, hcommas _ (List.mem_map_of_mem hdir)⟩
    have hall := List.map_eq_map_iff.mp (h.trans (List.map_id dirs).symm)
    exact hall dir hdir
  · intro h
    rw [flatMap_splitAt, List.map_map]
    · exact (List.map_congr_left fun dir hdir => (h dir hdir).1).trans (List.map_id dirs)
    · intro text htext
      obtain ⟨dir, hdir, rfl⟩ := List.mem_map.mp htext
      exact (h dir hdir).2

end Commas

section Pages

variable {args : List Text} {spec : LaunchSpec}

/-- An argument is a switch exactly if it begins with a dash. -/
theorem readSwitch_isNone {arg : Text} : (readSwitch arg).isNone ↔ arg.head? ≠ some '-' := by
  unfold readSwitch
  split
  · rename_i rest
    simp only [List.head?_cons, ne_eq, not_true_eq_false, iff_false]
    split <;> nofun
  · rename_i hdash
    simp only [Option.isNone_none, true_iff]
    intro hhead
    obtain ⟨rest, rfl⟩ := List.head?_eq_some_iff.mp hhead
    exact hdash rest rfl

/-- What has no switch in it is all pages, and the other way round. -/
theorem pages_eq_iff : pages args = args ↔ ∀ arg ∈ args, arg.head? ≠ some '-' := by
  simp only [pages, List.filter_eq_self, readSwitch_isNone]

theorem switches_eq_nil (h : ∀ arg ∈ args, arg.head? ≠ some '-') : switches args = [] := by
  refine List.filterMap_eq_nil_iff.mpr fun arg harg => ?_
  exact Option.isNone_iff_eq_none.mp (readSwitch_isNone.mpr (h arg harg))

variable (spec) in
/-- What the agent decides are switches only. -/
theorem pages_own : pages (ownArgs spec) = [] := by
  have hbare (name : String) : (readSwitch (bare name)).isNone = false := by
    rw [← Bool.not_eq_true, readSwitch_isNone]
    exact fun h => h rfl
  have hvalued (name : String) (value : Text) :
      (readSwitch (valued name value)).isNone = false := by
    rw [← Bool.not_eq_true, readSwitch_isNone]
    exact fun h => h rfl
  have hextensions : pages (extensionSwitches spec.extensions) = [] := by
    unfold extensionSwitches
    split
    · rfl
    · simp [pages, hvalued]
  have hrestrictions : pages (restrictionSwitches spec.restrictions spec.debugPort) = [] := by
    unfold restrictionSwitches
    rw [pages_append, pages_append, List.append_eq_nil_iff, List.append_eq_nil_iff]
    refine ⟨⟨?_, ?_⟩, ?_⟩
    · split <;> simp [pages, hbare]
    · split <;> simp [pages, hbare]
    · split
      · split <;> simp [pages, hvalued]
      · rfl
  have hevery : pages (everyLaunch spec) = [] := by simp [pages, everyLaunch, hbare, hvalued]
  rw [ownArgs, pages_append, pages_append, hevery, hextensions, hrestrictions]
  rfl

/-- The directories of the agent's two lists. -/
theorem dirsOf_own {name : String}
    (h : name = "load-extension" ∨ name = "disable-extensions-except") :
    dirsOf name (switches (ownArgs spec)) = spec.extensions ↔
      ∀ dir ∈ spec.extensions, reread dir = dir ∧ ',' ∉ display dir := by
  rw [dirsOf, lastOf_own spec h]
  by_cases hnone : spec.extensions = []
  · simp [hnone]
  · rw [if_neg hnone]
    exact split_dirs_iff hnone

end Pages

/-- The arguments are what they have to be exactly if no page begins with a dash, and the path of
every extension is UTF-8 and has no comma. -/
theorem arguments_sound_iff (spec : LaunchSpec) :
    Sound spec ↔ (∀ url ∈ spec.startUrls, url.head? ≠ some '-') ∧
      ∀ dir ∈ spec.extensions, reread dir = dir ∧ ',' ∉ display dir := by
  have hall : pages (buildArgs spec) = pages spec.startUrls := by
    rw [buildArgs, pages_append, pages_own, List.nil_append]
  constructor
  · intro h
    have hurls : ∀ url ∈ spec.startUrls, url.head? ≠ some '-' :=
      pages_eq_iff.mp (hall.symm.trans h.pages)
    have hloaded := h.loaded
    rw [h.own] at hloaded
    exact ⟨hurls, (dirsOf_own (.inl rfl)).mp hloaded⟩
  · rintro ⟨hurls, hdirs⟩
    have hown : switches (buildArgs spec) = switches (ownArgs spec) := by
      rw [buildArgs, switches_append, switches_eq_nil hurls, List.append_nil]
    refine ⟨hown, ?_, ?_, ?_, ?_, ?_⟩
    · rw [hown]
      exact debugging_own spec
    · rw [hown]
      exact proxy_own spec
    · rw [hall]
      exact pages_eq_iff.mpr hurls
    · rw [hown]
      exact (dirsOf_own (.inl rfl)).mpr hdirs
    · rw [hown]
      exact (dirsOf_own (.inr rfl)).mpr hdirs

/-- A member who may not have the cookies opens a profile whose start page is a switch. -/
def debuggedLaunch : LaunchSpec :=
  launchSpec (bytesOf "/home/u/.fury/profiles/7".toList) 41001 ⟨true, true, true, true, true⟩ false
    ["--remote-debugging-port=9222".toList] "http://fury.invalid/t/".toList [] false "en-US".toList

/-- The browser listens for a debugger although the restrictions forbid it. -/
theorem arguments_debugged : ¬ ∀ spec : LaunchSpec, Sound spec := by
  intro hsound
  have hdebugging := (hsound debuggedLaunch).debugging
    ⟨"remote-debugging-port".toList, some "9222".toList⟩ (by decide) (by decide)
  exact absurd hdebugging (by decide)

end FuryBrowser.LaunchArguments
