import Mathlib
import ApprovalFlow.Proofs.Merging

/-!
# Which source decides

Approvers that several sources give under one name are merged before names lose their blanks. So the
strongest source that has a key decides it, also when the name it gives is blank: then nobody approves,
whatever a weaker source says. What is stored has no blanks around it, stands in the order of the merged
keys, and gives the same settings when it is given again.
-/

namespace ApprovalFlow

/-! ## Texts without blanks around them -/

namespace Text

def Unpadded (s : String) : Prop :=
  s ≠ "" ∧ (∀ c ∈ s.toList.head?, isBlank c = false) ∧ ∀ c ∈ s.toList.getLast?, isBlank c = false

theorem head?_dropWhile_isBlank (cs : List Char) : ∀ c ∈ (cs.dropWhile isBlank).head?, isBlank c = false := by
  intro c hc
  have h := List.head?_dropWhile_not isBlank cs
  rw [Option.mem_def.mp hc] at h
  exact h

/-- What drops from one end of a list leaves the other end, if it leaves anything. -/
theorem getLast?_dropWhile_isBlank {cs : List Char} (h : cs.dropWhile isBlank ≠ []) :
    (cs.dropWhile isBlank).getLast? = cs.getLast? := by
  conv_rhs => rw [← List.takeWhile_append_dropWhile (p := isBlank) (l := cs)]
  rw [List.getLast?_append_of_ne_nil _ h]

theorem head?_stripChars (cs : List Char) : ∀ c ∈ (stripChars cs).head?, isBlank c = false := by
  intro c hc
  rw [stripChars, List.head?_reverse] at hc
  by_cases h : (cs.dropWhile isBlank).reverse.dropWhile isBlank = []
  · rw [h] at hc
    cases hc
  · rw [getLast?_dropWhile_isBlank h, List.getLast?_reverse] at hc
    exact head?_dropWhile_isBlank cs c hc

theorem getLast?_stripChars (cs : List Char) : ∀ c ∈ (stripChars cs).getLast?, isBlank c = false := by
  intro c hc
  rw [stripChars, List.getLast?_reverse] at hc
  exact head?_dropWhile_isBlank _ c hc

theorem unpadded_strip {s : String} (h : strip s ≠ "") : Unpadded (strip s) := by
  refine ⟨h, ?_, ?_⟩
  · rw [strip, String.toList_ofList]
    exact head?_stripChars s.toList
  · rw [strip, String.toList_ofList]
    exact getLast?_stripChars s.toList

theorem dropWhile_isBlank_eq_self {cs : List Char} (h : ∀ c ∈ cs.head?, isBlank c = false) :
    cs.dropWhile isBlank = cs := by
  cases cs with
  | nil => rfl
  | cons c cs => rw [List.dropWhile_cons_of_neg (by rw [h c rfl]; decide)]

theorem strip_of_unpadded {s : String} (h : Unpadded s) : strip s = s := by
  have hlast : ∀ c ∈ s.toList.reverse.head?, isBlank c = false := by
    rw [List.head?_reverse]
    exact h.2.2
  rw [strip, stripChars, dropWhile_isBlank_eq_self h.2.1, dropWhile_isBlank_eq_self hlast, List.reverse_reverse,
    String.ofList_toList]

end Text

namespace Settings

/-! ## Names that are stored -/

def storedName? (name : String) : Option String :=
  (some (Text.strip name)).filter (· != "")

theorem filter_map_strip (name : Option String) :
    (name.map Text.strip).filter (· != "") = name.bind storedName? := by
  cases name with
  | none => rfl
  | some name => rw [Option.map_some, Option.bind_some, storedName?]

theorem get?_stripNames {map : Entries String String} (h : (Entries.keys map).Nodup) (key : String) :
    Entries.get? key (stripNames map) = (Entries.get? key map).bind storedName? := by
  have hkeys := Entries.keys_mapValues Text.strip map
  rw [← hkeys] at h
  rw [stripNames, Entries.get?_filterValues h (· != ""), Entries.get?_mapValues, filter_map_strip]

theorem keys_stripNames {map : Entries String String} (h : (Entries.keys map).Nodup) :
    Entries.keys (stripNames map) =
      (Entries.keys map).filter fun key => ((Entries.get? key map).bind storedName?).isSome := by
  have hkeys := Entries.keys_mapValues Text.strip map
  have hnodup := h
  rw [← hkeys] at hnodup
  rw [stripNames, Entries.keys_filterValues hnodup (· != ""), hkeys]
  apply List.filter_congr
  intro key _
  rw [Entries.get?_mapValues, filter_map_strip]

theorem unpadded_of_mem_stripNames {map : Entries String String} {p : String × String}
    (h : p ∈ stripNames map) : Text.Unpadded p.2 := by
  obtain ⟨hmem, hne⟩ := List.mem_filter.mp h
  obtain ⟨q, -, rfl⟩ := List.mem_map.mp hmem
  apply Text.unpadded_strip
  simpa using hne

/-- Names that are stored already stay as they are. -/
theorem stripNames_of_unpadded {map : Entries String String} (h : ∀ p ∈ map, Text.Unpadded p.2) :
    stripNames map = map := by
  have hstrip : map.map (fun p => (p.1, Text.strip p.2)) = map := by
    conv_rhs => rw [← List.map_id map]
    apply List.map_congr_left
    intro p hp
    rw [Text.strip_of_unpadded (h p hp)]
    rfl
  show (map.map fun p => (p.1, Text.strip p.2)).filter _ = map
  rw [hstrip]
  apply List.filter_eq_self.mpr
  intro p hp
  simpa using (h p hp).1

/-! ## Levels -/

theorem mem_levels_of_checkLevel {path text level : String} (h : checkLevel path text = .ok level) :
    level ∈ levels := by
  unfold checkLevel at h
  dsimp only at h
  split at h
  · rename_i hmem
    rw [← Except.ok.inj h]
    exact List.contains_iff_mem.mp hmem
  · cases h

theorem mem_levels_of_levelOf {found : Found String} {level : String} (h : levelOf found = .ok level) :
    level ∈ levels := by
  unfold levelOf at h
  split at h
  · rw [← Except.ok.inj h]
    decide
  · exact mem_levels_of_checkLevel h
  · cases h

theorem checkLevel_of_mem {level : String} (h : level ∈ levels) (path : String) :
    checkLevel path level = .ok level := by
  have hupper : ∀ level ∈ levels, Text.upper (Text.strip level) = level := by decide
  simp only [checkLevel, hupper level h, List.contains_iff_mem.mpr h, if_true]

/-! ## From what is found to the settings -/

variable {lib : Library} {sources : Sources} {s : Settings}

theorem ok_of_both {a : Except (List Complaint) String} {b : Except (List Complaint) (Entries String String)}
    (h : both a b = .ok s) : a = .ok s.logLevel ∧ b = .ok s.approvers := by
  cases a with
  | error c => cases b <;> cases h
  | ok level =>
    cases b with
    | error c => cases h
    | ok approvers =>
      cases h
      exact ⟨rfl, rfl⟩

/-- Settings that load are a level that may be set and the names that were found, as they are stored. -/
theorem ok_of_load (h : lib.load sources = .ok s) : s.logLevel ∈ levels ∧
    ∃ findings found, lib.find sources = .ok findings ∧ findings.approvers = .ok found ∧
      s.approvers = stripNames ((found.map (·.2)).getD []) := by
  obtain ⟨findings, hfindings, h⟩ := bind_eq_ok h
  obtain ⟨hlevel, happrovers⟩ := ok_of_both h
  refine ⟨mem_levels_of_levelOf hlevel, findings, ?_⟩
  cases hfound : findings.approvers with
  | error complaints =>
    rw [hfound, approversOf] at happrovers
    cases happrovers
  | ok found =>
    refine ⟨found, hfindings, rfl, ?_⟩
    rw [hfound] at happrovers
    cases found with
    | none => exact (Except.ok.inj happrovers).symm
    | some p => exact (Except.ok.inj happrovers).symm

theorem load_of_find {findings : Findings} (h : lib.find sources = .ok findings) :
    lib.load sources = both (levelOf findings.level) (approversOf findings.approvers) := by
  rw [Library.load, h]
  rfl

section Layered

variable (hlib : lib.Layered)

include hlib

/-- Settings that are as they would be stored load as they are. -/
theorem load_asArguments {level approvers : String} (hlevel : level = levelName.outer ∨ level = levelName.own)
    (happrovers : approvers = approversName.outer ∨ approvers = approversName.own) (hlog : s.logLevel ∈ levels)
    (hkeys : (Entries.keys s.approvers).Nodup) (hnames : ∀ p ∈ s.approvers, Text.Unpadded p.2) :
    lib.load (asArguments level approvers s.logLevel s.approvers) = .ok s := by
  obtain ⟨findings, path, path', hfind, hlevel, happrovers⟩ :=
    hlib.direct level approvers s.logLevel s.approvers hlevel happrovers hkeys
  have hlevel' : levelOf findings.level = .ok s.logLevel := by rw [hlevel, levelOf, checkLevel_of_mem hlog]
  have happrovers' : approversOf findings.approvers = .ok s.approvers := by
    rw [happrovers, approversOf, stripNames_of_unpadded hnames]
  rw [load_of_find hfind, hlevel', happrovers', both]

end Layered

theorem storedName?_eq_some {name stored : String} :
    storedName? name = some stored ↔ Text.strip name = stored ∧ stored ≠ "" := by
  rw [storedName?, Option.filter_eq_some_iff]
  simp

/-- What settings are that come from three maps of approvers. The approver of a key is whoever the strongest
map that has the key names, once the blanks around the name are gone, and nobody where nothing is left. What
is stored has no blanks around it, stands in the order of the merged keys, the weakest map's first, and gives
the same settings when it is given again and nothing else is. -/
structure DecidedBy (lib : Library) (fromArguments fromEnvironment fromFile : Entries String String)
    (s : Settings) : Prop where
  approver : ∀ key stored, s.approver? key = some ⟨stored⟩ ↔
    ∃ name, [fromArguments, fromEnvironment, fromFile].findSome? (Entries.get? key) = some name ∧
      Text.strip name = stored ∧ stored ≠ ""
  unpadded : ∀ p ∈ s.approvers, Text.Unpadded p.2
  keys : Entries.keys s.approvers =
    (Entries.keys fromFile ++ Entries.keys fromEnvironment ++ Entries.keys fromArguments).eraseDups.filter
      fun key => (s.approver? key).isSome
  again : ∀ level approvers, level = levelName.outer ∨ level = levelName.own →
    approvers = approversName.outer ∨ approvers = approversName.own →
    lib.load (asArguments level approvers s.logLevel s.approvers) = .ok s

/-- Settings that load are decided by the maps of approvers that the sources give, the strongest first. -/
theorem strongest_source_decides (hlib : lib.Layered)
    {fromArguments fromEnvironment fromFile : Entries String String}
    (harguments : lib.approversFrom sources .arguments = some fromArguments)
    (henvironment : lib.approversFrom sources .environment = some fromEnvironment)
    (hfile : lib.approversFrom sources .dotenv = some fromFile) (hload : lib.load sources = .ok s) :
    DecidedBy lib fromArguments fromEnvironment fromFile s := by
  have harguments' := hlib.distinct _ _ _ harguments
  have henvironment' := hlib.distinct _ _ _ henvironment
  have hfile' := hlib.distinct _ _ _ hfile
  have hmerged := Entries.nodup_keys_update hfile' (Entries.update fromEnvironment fromArguments)
  obtain ⟨hlog, findings, found, hfindings, hfound, happrovers⟩ := ok_of_load hload
  rw [hlib.merged _ _ _ _ _ _ harguments henvironment hfile hfindings hfound] at happrovers
  have hget : ∀ key, Entries.get? key s.approvers =
      ([fromArguments, fromEnvironment, fromFile].findSome? (Entries.get? key)).bind storedName? := by
    intro key
    rw [happrovers, get?_stripNames hmerged, Entries.get?_update_update hfile' henvironment' harguments']
  have hunpadded : ∀ p ∈ s.approvers, Text.Unpadded p.2 := by
    intro p hp
    rw [happrovers] at hp
    exact unpadded_of_mem_stripNames hp
  have hkeys : (Entries.keys s.approvers).Nodup := by
    rw [happrovers, keys_stripNames hmerged]
    exact hmerged.filter _
  refine ⟨?approver, hunpadded, ?keys, ?again⟩
  case approver =>
    intro key stored
    rw [approver?, hget, Option.map_eq_some_iff]
    simp only [Actor.mk.injEq, exists_eq_right, Option.bind_eq_some_iff, storedName?_eq_some]
  case keys =>
    rw [← Entries.keys_update_update hfile' henvironment', happrovers, keys_stripNames hmerged]
    apply List.filter_congr
    intro key _
    rw [approver?, Option.isSome_map, happrovers, get?_stripNames hmerged]
  case again =>
    intro level approvers hlevel happrovers'
    exact load_asArguments hlib hlevel happrovers' hlog hkeys hunpadded

/-! ## The standard library -/

theorem readTexts_of_texts? {fields : List (String × Value)} {names : Entries String String}
    (h : texts? fields = some names) (path : String) : readTexts path (.object fields) = .ok names := by
  -- One induction on the fields serves both.
  have hboth : textComplaints path fields = [] ∧
      (fields.filterMap fun p => (textOf? p.2).map fun s => (p.1, s)) = names := by
    induction fields generalizing names with
    | nil =>
      cases h
      exact ⟨rfl, rfl⟩
    | cons field fields ih =>
      obtain ⟨key, v⟩ := field
      obtain ⟨s, rest, hs, hrest, rfl⟩ := texts?_cons_eq_some.mp h
      obtain ⟨hcomplaints, hnames⟩ := ih hrest
      constructor
      · rw [textComplaints, List.filterMap_cons]
        dsimp only
        rw [hs]
        exact hcomplaints
      · rw [List.filterMap_cons]
        dsimp only
        rw [hs, hnames]
        rfl
  rw [readTexts, hboth.1]
  exact congrArg Except.ok hboth.2

theorem given?_eq (all : Entries String Value) (name : Name) :
    given? all name =
      let counted := if all.contains name.outer then name.outer else name.own
      (Entries.get? counted all).map fun v => (counted, v) := by
  unfold given? Entries.contains
  cases h : Entries.get? name.outer all with
  | none => simp
  | some v => simp [h]

theorem contains_overlayFields {weak strong : Entries String Value} (h : (Entries.keys strong).Nodup)
    (name : String) :
    Entries.contains (overlayFields weak strong) name =
      (Entries.contains strong name || Entries.contains weak name) := by
  unfold Entries.contains
  rw [get?_overlayFields weak strong name h]
  cases Entries.get? name strong <;> rfl

theorem nodup_argumentSettings (arguments : Entries String Value) :
    (Entries.keys (argumentSettings arguments)).Nodup := by
  have hsub : (Entries.keys (argumentSettings arguments)).Sublist [levelName.outer, approversName.outer] := by
    cases h : argument? arguments levelName <;> cases h' : argument? arguments approversName <;>
      simp [argumentSettings, Entries.keys, h, h']
  exact hsub.nodup (by decide)

variable {given : Given}

theorem Given.all_eq (given : Given) :
    given.all = overlayFields given.file (overlayFields given.environment given.arguments) := rfl

/-- No source gives a name twice, and of the environment and the file none gives a key twice. -/
theorem distinct_of_givenBy (h : givenBy sources = .ok given) :
    (Entries.keys given.arguments).Nodup ∧ Distinct given.environment ∧ Distinct given.file := by
  obtain ⟨m, -, h⟩ := bind_eq_ok h
  obtain ⟨file, -, h⟩ := bind_eq_ok h
  obtain ⟨fromEnvironment, henvironment, h⟩ := bind_eq_ok h
  obtain ⟨fromFile, hfile, h⟩ := bind_eq_ok h
  cases h
  exact ⟨nodup_argumentSettings _, distinct_settingsIn henvironment, distinct_settingsInFile hfile⟩

/-- The name that counts in each source is the one found in all of them together. -/
theorem Given.nameOf_eq (h : givenBy sources = .ok given) (name : Name) :
    given.nameOf name = if given.all.contains name.outer then name.outer else name.own := by
  obtain ⟨hnames, hdistinct, -⟩ := distinct_of_givenBy h
  have hbelow := nodup_overlayFields hdistinct.names given.arguments
  rw [Given.nameOf, Given.all_eq, contains_overlayFields hbelow, contains_overlayFields hnames]

theorem Given.found_of_given? {α : Type} {arguments : Entries String Value} {name : Name} {found : String} {v : Value}
    {x : α} {read : String → Value → Except (List Complaint) α} (h : given? given.all name = some (found, v))
    (hread : read (spokenName arguments name found) v = .ok x) :
    given.found arguments name read = .ok (some (spokenName arguments name found, x)) := by
  rw [Given.found, h]
  dsimp only
  rw [hread]
  rfl

/-- What is found under a name where all sources together give a map. -/
theorem Given.found_of_mapUnder? {names : Entries String String} {arguments : Entries String Value}
    {found : Option (String × Entries String String)} (h : givenBy sources = .ok given)
    (hmap : mapUnder? (given.nameOf approversName) given.all = some names)
    (hfound : given.found arguments approversName readTexts = .ok found) : (found.map (·.2)).getD [] = names := by
  rw [Given.nameOf_eq h] at hmap
  unfold Given.found at hfound
  rw [given?_eq] at hfound
  dsimp only at hfound
  unfold mapUnder? at hmap
  split at hmap
  · rename_i hnone
    rw [hnone] at hfound
    cases hfound
    exact Option.some.inj hmap
  · rename_i fields hfields
    rw [hfields] at hfound
    change (readTexts _ (.object fields)).map _ = _ at hfound
    rw [readTexts_of_texts? hmap] at hfound
    cases hfound
    rfl
  · cases hmap

/-- What the sources give under a name comes to their maps on top of each other. -/
theorem Given.mapUnder?_all {name : String} {fromArguments fromEnvironment fromFile : Entries String String}
    (h : givenBy sources = .ok given) (hkeys : (Entries.keys fromArguments).Nodup)
    (harguments : mapUnder? name given.arguments = some fromArguments)
    (henvironment : mapUnder? name given.environment = some fromEnvironment)
    (hfile : mapUnder? name given.file = some fromFile) :
    mapUnder? name given.all = some (Entries.update fromFile (Entries.update fromEnvironment fromArguments)) := by
  obtain ⟨hnames, hdistinct, -⟩ := distinct_of_givenBy h
  have hbelow := nodup_overlayFields hdistinct.names given.arguments
  have hbelow' := Entries.nodup_keys_update (hdistinct.nodup_mapUnder? henvironment) fromArguments
  exact mapUnder?_overlayFields hbelow hbelow' hfile
    (mapUnder?_overlayFields hnames hkeys henvironment harguments)

theorem approversFrom_eq_some {source : Source} {names : Entries String String}
    (h : Library.standard.approversFrom sources source = some names) :
    ∃ given, givenBy sources = .ok given ∧
      mapUnder? (given.nameOf approversName) (given.of source) = some names ∧ (Entries.keys names).Nodup := by
  unfold Library.standard at h
  dsimp only at h
  split at h
  · rename_i given hgiven
    obtain ⟨hmap, hkeys⟩ := Option.filter_eq_some_iff.mp h
    exact ⟨given, hgiven, hmap, of_decide_eq_true hkeys⟩
  · cases h

theorem find_standard (hgiven : givenBy sources = .ok given) (hsecrets : checkSecrets sources = .ok ()) :
    Library.standard.find sources = .ok ⟨given.found sources.arguments levelName readText,
      given.found sources.arguments approversName readTexts⟩ := by
  show (givenBy sources >>= fun given => checkSecrets sources >>= fun _ => pure _) = _
  rw [hgiven, hsecrets]
  rfl

theorem texts?_map_text (names : Entries String String) :
    texts? (names.map fun p => (p.1, .text p.2)) = some names := by
  induction names with
  | nil => rfl
  | cons p names ih => exact texts?_cons_eq_some.mpr ⟨p.2, names, rfl, ih, rfl⟩

theorem pathParts_dotenv : pathParts ".env" = [".env"] := by cbv

/-- Where no file is chosen, the variables are those of the one in the working directory, if there is one. -/
theorem fileVariables_eq (hchoice : Entries.get? "_env_file" sources.arguments = none) :
    fileVariables sources = match sources.dotenv with
      | some file => (readFile sources file).map (Entries.update [])
      | none => .ok [] := by
  have hhome : sources.isHomeless ".env" = false := by simp [Sources.isHomeless, pathParts_dotenv]
  have hdotenv : isDotenvPath ".env" = true := by simp [isDotenvPath, pathParts_dotenv]
  have hpath : pathOf sources (.text ".env") = .ok ".env" := by
    simp only [pathOf, textOf?, hhome, Bool.false_eq_true, if_false]
  have hfile : sources.fileAt? ".env" = sources.dotenv := by rw [Sources.fileAt?, hdotenv, if_pos rfl]
  simp only [fileVariables, hchoice, Option.getD_none, pathValues, bind, Except.bind, List.foldlM_cons,
    List.foldlM_nil, hpath, hfile]
  cases sources.dotenv with
  | none => rfl
  | some file =>
    dsimp only
    cases readFile sources file <;> rfl

section Names

variable {level approvers : String} (hlevel : level = levelName.outer ∨ level = levelName.own)
  (happrovers : approvers = approversName.outer ∨ approvers = approversName.own)

include hlevel happrovers

theorem givenBy_asArguments (text : String) (names : Entries String String) :
    givenBy (asArguments level approvers text names) =
      .ok ⟨[(levelName.outer, .text text),
        (approversName.outer, .object (names.map fun p => (p.1, .text p.2)))], [], []⟩ := by
  -- Of either name the same setting is taken, and nothing else is given anywhere.
  have hmanner : mannerOf (asArguments level approvers text names).arguments = .ok {} := by
    rcases hlevel with rfl | rfl <;> rcases happrovers with rfl | rfl <;> rfl
  have hfile : fileVariables (asArguments level approvers text names) = .ok [] := by
    rw [fileVariables_eq (by rcases hlevel with rfl | rfl <;> rcases happrovers with rfl | rfl <;> rfl)]
    rfl
  have harguments : argumentSettings (asArguments level approvers text names).arguments =
      [(levelName.outer, .text text),
        (approversName.outer, .object (names.map fun p => (p.1, .text p.2)))] := by
    rcases hlevel with rfl | rfl <;> rcases happrovers with rfl | rfl <;> rfl
  rw [givenBy, hmanner, hfile, harguments]
  rfl

/-- Both are found as they are. -/
theorem given_asArguments (text : String) (names : Entries String String) :
    ∃ given, givenBy (asArguments level approvers text names) = .ok given ∧
      given? given.all levelName = some (levelName.outer, .text text) ∧
      given? given.all approversName =
        some (approversName.outer, .object (names.map fun p => (p.1, .text p.2))) :=
  ⟨_, givenBy_asArguments hlevel happrovers text names, rfl, rfl⟩

theorem checkSecrets_asArguments (text : String) (names : Entries String String) :
    checkSecrets (asArguments level approvers text names) = .ok () := by
  rcases hlevel with rfl | rfl <;> rcases happrovers with rfl | rfl <;> rfl

end Names

theorem standard_layered : Library.standard.Layered where
  distinct _ _ _ h := by
    obtain ⟨-, -, -, hkeys⟩ := approversFrom_eq_some h
    exact hkeys
  merged sources fromArguments fromEnvironment fromFile findings found harguments henvironment hfile hfind
      hfound := by
    obtain ⟨given, hgiven, harguments, hkeys⟩ := approversFrom_eq_some harguments
    obtain ⟨given', hgiven', henvironment, -⟩ := approversFrom_eq_some henvironment
    obtain rfl := Except.ok.inj (hgiven.symm.trans hgiven')
    obtain ⟨given', hgiven', hfile, -⟩ := approversFrom_eq_some hfile
    obtain rfl := Except.ok.inj (hgiven.symm.trans hgiven')
    obtain ⟨given', hgiven', hfind⟩ := bind_eq_ok hfind
    obtain rfl := Except.ok.inj (hgiven.symm.trans hgiven')
    obtain ⟨-, -, hfind⟩ := bind_eq_ok hfind
    cases hfind
    exact Given.found_of_mapUnder? hgiven (Given.mapUnder?_all hgiven hkeys harguments henvironment hfile) hfound
  direct level approvers text names hlevel happrovers _ := by
    obtain ⟨given, hgiven, hlevel', happrovers'⟩ := given_asArguments hlevel happrovers text names
    have hnames : readTexts (spokenName (asArguments level approvers text names).arguments approversName
        approversName.outer) (.object (names.map fun p => (p.1, .text p.2))) = .ok names :=
      readTexts_of_texts? (texts?_map_text names) _
    exact ⟨_, _, _, find_standard hgiven (checkSecrets_asArguments hlevel happrovers text names),
      Given.found_of_given? hlevel' rfl, Given.found_of_given? happrovers' hnames⟩

/-- A blank name among the arguments, above a map in the environment and one in the file. -/
def crowdedSources : Sources where
  arguments := [("approvers", .object [("a", .text " "), ("d", .text "Ann")])]
  environment := [("WORKFLOW_APPROVERS", "\x7b\"a\": \"Kim\", \"b\": \" Lee \"\x7d")]
  dotenv := some "WORKFLOW_APPROVERS='\x7b\"c\": \"Max\", \"b\": \"Bo\"\x7d'"

def crowdedGiven : Given where
  arguments := [("WORKFLOW_APPROVERS", .object [("a", .text " "), ("d", .text "Ann")])]
  environment := [("WORKFLOW_APPROVERS", .object [("a", .text "Kim"), ("b", .text " Lee ")])]
  file := [("WORKFLOW_APPROVERS", .object [("c", .text "Max"), ("b", .text "Bo")])]

/-- One variable whose text is an object of approvers gives just that. -/
theorem settingsIn_of_read {source : Source} {text : String} {fields : List (String × Value)}
    (h : Json.read .usual text = .ok (.object fields)) :
    Manner.settingsIn {} source [("workflow_approvers", some text)] =
      .ok [("WORKFLOW_APPROVERS", .object fields)] := by
  have hlevel : Manner.levelIn {} [("workflow_approvers", some text)] = none := by rfl
  have hassigned : Manner.assigned? {} [("workflow_approvers", some text)] approversName =
      some ("WORKFLOW_APPROVERS", text) := by rfl
  have happrovers : Manner.approversIn {} source [("workflow_approvers", some text)] =
      .ok (some ("WORKFLOW_APPROVERS", .object fields)) := by
    simp only [Manner.approversIn, hassigned, Manner.approversText, h]
    rfl
  simp only [Manner.settingsIn, hlevel, happrovers]
  rfl

theorem settingsInFile_of_read {text : String} {fields : List (String × Value)}
    (h : Json.read .usual text = .ok (.object fields)) :
    Manner.settingsInFile {} [("workflow_approvers", some text)] =
      .ok [("WORKFLOW_APPROVERS", .object fields)] := by
  have hkey : Manner.outerKey {} approversName = "workflow_approvers" := by rfl
  have hlookedUp : Manner.isLookedUp {} "workflow_approvers" = true := by simp [Manner.isLookedUp, hkey]
  have hother : Manner.addOther {} [("WORKFLOW_APPROVERS", .object fields)] "workflow_approvers" text =
      [("WORKFLOW_APPROVERS", .object fields)] := by
    simp only [Manner.addOther, hlookedUp, Bool.or_true, if_true]
  simp only [Manner.settingsInFile, settingsIn_of_read h, bind, Except.bind, List.foldl_cons, List.foldl_nil,
    hother, ite_self]
  rfl

theorem givenBy_crowded : givenBy crowdedSources = .ok crowdedGiven := by
  have hmanner : mannerOf crowdedSources.arguments = .ok {} := by rfl
  have hfile : fileVariables crowdedSources =
      .ok [("WORKFLOW_APPROVERS", some "\x7b\"c\": \"Max\", \"b\": \"Bo\"\x7d")] := by
    have hread : readFile crowdedSources "WORKFLOW_APPROVERS='\x7b\"c\": \"Max\", \"b\": \"Bo\"\x7d'" =
        .ok [("WORKFLOW_APPROVERS", some "\x7b\"c\": \"Max\", \"b\": \"Bo\"\x7d")] := by cbv
    rw [fileVariables_eq (by rfl)]
    show (readFile crowdedSources _).map _ = _
    rw [hread]
    rfl
  have hread : Json.read .usual "\x7b\"c\": \"Max\", \"b\": \"Bo\"\x7d" =
      .ok (.object [("c", .text "Max"), ("b", .text "Bo")]) := by cbv
  have hread' : Json.read .usual "\x7b\"a\": \"Kim\", \"b\": \" Lee \"\x7d" =
      .ok (.object [("a", .text "Kim"), ("b", .text " Lee ")]) := by cbv
  have hkeyed : ∀ text,
      Manner.keyed {} [("WORKFLOW_APPROVERS", some text)] = [("workflow_approvers", some text)] := by
    intro text
    rfl
  have henvironment : Manner.keyed {} crowdedSources.variables =
      [("workflow_approvers", some "\x7b\"a\": \"Kim\", \"b\": \" Lee \"\x7d")] := hkeyed _
  have harguments : argumentSettings crowdedSources.arguments = crowdedGiven.arguments := by rfl
  simp only [givenBy, hmanner, hfile, bind, Except.bind, henvironment, hkeyed, settingsIn_of_read hread',
    settingsInFile_of_read hread, harguments]
  rfl

/-- What they come to: nobody for the key whose name was made blank. -/
def crowdedSettings : Settings := ⟨"INFO", [("c", "Max"), ("b", "Lee"), ("d", "Ann")]⟩

theorem load_crowded : load crowdedSources = .ok crowdedSettings := by
  have hfind := find_standard givenBy_crowded (show checkSecrets crowdedSources = .ok () by rfl)
  rw [load, load_of_find hfind]
  rfl

theorem approversFrom_crowded {source : Source} {names : Entries String String}
    (h : mapUnder? "WORKFLOW_APPROVERS" (crowdedGiven.of source) = some names) (hkeys : (Entries.keys names).Nodup) :
    Library.standard.approversFrom crowdedSources source = some names := by
  have hname : crowdedGiven.nameOf approversName = "WORKFLOW_APPROVERS" := by rfl
  unfold Library.standard
  dsimp only
  rw [givenBy_crowded]
  dsimp only
  rw [hname, h, Option.filter_some, if_pos (decide_eq_true hkeys)]

theorem crowded_decided : Library.standard.Layered ∧ load crowdedSources = .ok crowdedSettings ∧
    DecidedBy .standard [("a", " "), ("d", "Ann")] [("a", "Kim"), ("b", " Lee ")] [("c", "Max"), ("b", "Bo")]
      crowdedSettings :=
  ⟨standard_layered, load_crowded, strongest_source_decides standard_layered
    (approversFrom_crowded (by rfl) (by decide)) (approversFrom_crowded (by rfl) (by decide))
    (approversFrom_crowded (by rfl) (by decide)) load_crowded⟩

end Settings

end ApprovalFlow
