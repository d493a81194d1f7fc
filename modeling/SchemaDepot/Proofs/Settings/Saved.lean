import Mathlib.Data.List.TakeWhile
import SchemaDepot.Proofs.Text.Utf8
import SchemaDepot.Proofs.Toml.Document
import SchemaDepot.Settings.Save

/-! # Saved settings are loaded again

* `Setting.IsTidy`: tables whose keys differ in more than the case of letters.
* `Setting.layEntries_empty`, `Setting.layEntries_self`: laid over nothing, or over itself, such a
  table is what it was.
* `Toml.Sheet.readSetting_render`: what is read of tables that were written.
* `Settings.ofSetting?_layer`: the tables of settings are taken for these.
* `SettingsSource.HasOnly`: no settings but those in one file are to be found.
* `Settings.load_save`: saved settings are loaded again. -/

namespace SchemaDepot

/-! ### Layers -/

namespace Setting
variable {key : String} {s : Setting} {es before : List (String × Setting)}

/-- The keys of all tables are in lower case and differ. -/
inductive IsTidy : Setting → Prop where
  | leaf {s : Setting} (h : ∀ es, s ≠ table es) : IsTidy s
  | table {es : List (String × Setting)} (distinct : (es.map Prod.fst).Nodup)
      (small : ∀ e ∈ es, lower e.1 = e.1) (below : ∀ e ∈ es, IsTidy e.2) : IsTidy (table es)

theorem find?_eq_none (h : key ∉ es.map Prod.fst) : find? key es = none :=
  congrArg (Option.map Prod.snd) (find?_key_eq_none h)

theorem find?_of_mem (distinct : (es.map Prod.fst).Nodup) {e : String × Setting} (h : e ∈ es) :
    find? e.1 es = some e.2 :=
  congrArg (Option.map Prod.snd) ((find?_key_eq_some distinct).2 ⟨h, rfl⟩)

theorem put_new (h : key ∉ es.map Prod.fst) (s : Setting) : put key s es = es ++ [(key, s)] := by
  induction es with
  | nil => rfl
  | cons e es ih =>
    rw [List.map_cons, List.mem_cons, not_or] at h
    rw [put, if_neg (Ne.symm h.1), ih h.2, List.cons_append]

theorem put_same (h : find? key es = some s) : put key s es = es := by
  induction es with
  | nil => cases h
  | cons e es ih =>
    rw [put]
    by_cases same : e.1 = key
    · rw [find?, List.find?_cons_of_pos (by simpa using same)] at h
      rw [if_pos same, ← same, ← Option.some.inj h]
    · rw [find?, List.find?_cons_of_neg (by simpa using same)] at h
      rw [if_neg same, ih h]

theorem natural?_natCast (n : Nat) : natural? (.integer n) = some n := by
  rw [natural?, if_pos (Int.natCast_nonneg n), Int.toNat_natCast]

/-- Laid over nothing, or over itself, a setting is what it was. -/
structure IsStable (s : Setting) : Prop where
  alone {key : String} {before : List (String × Setting)} (small : lower key = key)
    (new : key ∉ before.map Prod.fst) : layKey key (.table before) s = .table (before ++ [(key, s)])
  again {key : String} {all : List (String × Setting)} (small : lower key = key)
    (there : find? key all = some s) : layKey key (.table all) s = .table all

theorem layEntries_append (stable : ∀ e ∈ es, IsStable e.2) (small : ∀ e ∈ es, lower e.1 = e.1)
    (distinct : ((before ++ es).map Prod.fst).Nodup) :
    layEntries (.table before) es = .table (before ++ es) := by
  induction es generalizing before with
  | nil => rw [List.append_nil]; rfl
  | cons e es ih =>
    obtain ⟨first, others⟩ := List.forall_mem_cons.1 stable
    obtain ⟨low, lows⟩ := List.forall_mem_cons.1 small
    have new : e.1 ∉ before.map Prod.fst := key_notMem_of_nodup distinct
    rw [List.append_cons before e es] at distinct ⊢
    rw [layEntries, first.alone low new, ih others lows distinct]

theorem layEntries_of_find? {all : List (String × Setting)} (stable : ∀ e ∈ es, IsStable e.2)
    (small : ∀ e ∈ es, lower e.1 = e.1) (there : ∀ e ∈ es, find? e.1 all = some e.2) :
    layEntries (.table all) es = .table all := by
  induction es with
  | nil => rfl
  | cons e es ih =>
    obtain ⟨first, others⟩ := List.forall_mem_cons.1 stable
    obtain ⟨low, lows⟩ := List.forall_mem_cons.1 small
    obtain ⟨mem, mems⟩ := List.forall_mem_cons.1 there
    rw [layEntries, first.again low mem, ih others lows mems]

theorem layKey_leaf (h : ∀ es, s ≠ table es) (key : String) (below : Setting) :
    layKey key below s = .table (put (lower key) s below.entries) := by
  cases s with
  | table es => exact absurd rfl (h es)
  | _ => rfl

/-- A tidy table takes its place beside others, and takes no other from itself. -/
theorem IsTidy.isStable (h : IsTidy s) : IsStable s := by
  induction h with
  | @leaf s h =>
    refine ⟨fun {key before} small new => ?_, fun {key all} small there => ?_⟩
    · rw [layKey_leaf h, small]
      exact congrArg Setting.table (put_new new s)
    · rw [layKey_leaf h, small]
      exact congrArg Setting.table (put_same there)
  | @table es distinct small _ ih =>
    refine ⟨fun {key before} low new => ?_, fun {key all} low there => ?_⟩
    · have inner : layEntries (.table []) es = .table ([] ++ es) :=
        layEntries_append ih small distinct
      rw [layKey, low, entries, find?_eq_none new, Option.getD_none, inner, put_new new]
      rfl
    · have inner : layEntries (.table es) es = .table es :=
        layEntries_of_find? ih small fun e he => find?_of_mem distinct he
      rw [layKey, low, entries, there, Option.getD_some, inner, put_same there]

/-- **Laid over nothing, a tidy table is what it was.** -/
theorem layEntries_empty (h : IsTidy (table es)) : layEntries (table []) es = table es := by
  cases h with
  | leaf other => exact absurd rfl (other es)
  | table distinct small below =>
    have alone : layEntries (table []) es = table ([] ++ es) :=
      layEntries_append (fun e he => (below e he).isStable) small distinct
    exact alone

/-- **Laid over itself, a tidy table is what it was.** -/
theorem layEntries_self (h : IsTidy (table es)) : layEntries (table es) es = table es := by
  cases h with
  | leaf other => exact absurd rfl (other es)
  | table distinct small below =>
    exact layEntries_of_find? (fun e he => (below e he).isStable) small
      fun e he => find?_of_mem distinct he

end Setting

theorem SettingPath.read_name {name : String} (filled : name ≠ "")
    (plain : ∀ c ∈ name.toList, isNameChar c = true) : read name = [.key name] := by
  have front : name.toList.takeWhile isNameChar = name.toList := List.takeWhile_eq_self_iff.2 plain
  have behind : name.toList.dropWhile isNameChar = [] := List.dropWhile_eq_nil_iff.2 plain
  have found : name.toList.isEmpty = false :=
    List.isEmpty_eq_false_iff.2 (mt String.toList_eq_nil_iff.1 filled)
  rw [read, read?, steps?, front, behind, found, if_neg Bool.false_ne_true, String.ofList_toList,
    steps?]
  rfl

namespace Layer
variable {layer : Layer}

/-- Where each path is one step, a layer is laid over what is below key by key. -/
theorem cover_eq (h : ∀ e ∈ layer, SettingPath.read e.1 = [.key e.1]) (below : Setting) :
    cover layer below = some (Setting.layEntries below layer) := by
  induction layer generalizing below with
  | nil => rfl
  | cons e layer ih =>
    obtain ⟨first, others⟩ := List.forall_mem_cons.1 h
    show (Setting.lay e.2 (SettingPath.read e.1) below).bind (cover layer) = _
    rw [first]
    exact ih others _

end Layer

/-! ### What is read of tables -/

namespace Toml

/-- A plain value as a setting. -/
def Plain.toSetting : Plain → Setting
  | text s => .text s
  | integer i => .integer i
  | boolean b => .boolean b

theorem setting?_toValue (v : Plain) : setting? v.toValue = some v.toSetting := by
  cases v <;> rfl

theorem entrySettings?_plain (es : List (String × Plain)) :
    entrySettings? (es.map fun (key, v) => (key, v.toValue)) =
      some (es.map fun (key, v) => (key, v.toSetting)) := by
  induction es with
  | nil => rfl
  | cons e es ih =>
    rw [List.map_cons, entrySettings?, setting?_toValue, ih]
    rfl

/-- A key without quotes does not say that a table is a moment. -/
theorem IsBareKey.ne_momentKey {key : String} (h : IsBareKey key) : key ≠ momentKey := by
  rintro rfl
  exact absurd (h.plain '$' (by decide)) (by decide)

theorem setting?_table {es : Entries} (h : AreKeys (es.map Prod.fst)) :
    setting? (.table es) = (entrySettings? es).map .table := by
  cases es with
  | nil => rfl
  | cons e es =>
    rw [setting?, if_neg (h.bare e.1 List.mem_cons_self).ne_momentKey, entrySettings?]
    cases setting? e.2 with
    | none => rfl
    | some s => cases entrySettings? es <;> rfl

/-- A key without quotes is a path of one step. -/
theorem IsBareKey.read {key : String} (h : IsBareKey key) : SettingPath.read key = [.key key] := by
  refine SettingPath.read_name h.filled fun c hc => ?_
  have plain := h.plain c hc
  simp only [isKeyChar, Bool.or_eq_true] at plain
  simp only [SettingPath.isNameChar, Bool.or_eq_true]
  tauto

namespace Sheet
variable {s : Sheet}

/-- The layer that tables make. -/
def layer (s : Sheet) : Layer :=
  s.map fun (name, es) => (name, .table (es.map fun (key, v) => (key, v.toSetting)))

theorem entrySettings?_entries (sound : s.IsSound) : entrySettings? s.entries = some s.layer := by
  have tables : ∀ t ∈ s, setting? (.table (t.2.map fun (key, v) => (key, v.toValue))) =
      some (.table (t.2.map fun (key, v) => (key, v.toSetting))) := by
    intro t ht
    have keys := (sound.tables t ht).keys
    rw [setting?_table (by rwa [List.map_map]), entrySettings?_plain, Option.map_some]
  clear sound
  induction s with
  | nil => rfl
  | cons t s ih =>
    obtain ⟨first, others⟩ := List.forall_mem_cons.1 tables
    rw [entries, List.map_cons, entrySettings?, first, ← entries, ih others]
    rfl

/-- **What is read of tables** is a table of tables. -/
theorem readSetting_render (sound : s.IsSound) : readSetting s.render = some (.table s.layer) := by
  have names : AreKeys (s.entries.map Prod.fst) := by
    rw [entries, List.map_map]
    exact sound.names
  rw [readSetting, read_render sound]
  show setting? (.table s.entries) = _
  rw [setting?_table names, entrySettings?_entries sound, Option.map_some]

theorem isTidy_layer (sound : s.IsSound) (small : ∀ t ∈ s, Setting.lower t.1 = t.1 ∧
    ∀ e ∈ t.2, Setting.lower e.1 = e.1) : Setting.IsTidy (.table s.layer) := by
  refine .table ?_ ?_ ?_
  · rw [layer, List.map_map]
    exact sound.names.distinct
  · exact List.forall_mem_map.2 fun t ht => (small t ht).1
  · refine List.forall_mem_map.2 fun t ht => .table ?_ ?_ ?_
    · rw [List.map_map]
      exact (sound.tables t ht).keys.distinct
    · exact List.forall_mem_map.2 (small t ht).2
    · refine List.forall_mem_map.2 fun (_, v) _ => .leaf fun es => ?_
      cases v <;> rintro ⟨⟩

end Sheet

end Toml

/-! ### Saved settings -/

namespace Settings

theorem fits_of_mem_numbers {s : Settings} (h : ∀ n ∈ s.numbers, n ≤ 2 ^ 63 - 1) {n : Nat}
    (hn : n ∈ s.numbers) : Toml.Plain.Fits (.integer n) := by
  have most := h n hn
  exact ⟨n, rfl, by omega⟩

/-- The tables of settings can be read back if the numbers fit. -/
theorem isSound_sheet {s : Settings} (h : ∀ n ∈ s.numbers, n ≤ 2 ^ 63 - 1) :
    s.sheet.IsSound := by
  have depth : Toml.Plain.Fits (.integer s.maxDepth) := fits_of_mem_numbers h (by simp [numbers])
  have timeout : Toml.Plain.Fits (.integer s.timeoutSeconds) :=
    fits_of_mem_numbers h (by simp [numbers])
  refine ⟨(by decide : Toml.AreKeys ["registry", "parser", "resolver", "compiler"]), ?_⟩
  simp only [sheet, List.forall_mem_cons, List.not_mem_nil, false_implies, implies_true, and_true]
  refine ⟨⟨(by decide : Toml.AreKeys ["root"]), ?_⟩,
    ⟨(by decide : Toml.AreKeys ["directive_namespace", "missing_package"]), ?_⟩,
    ⟨(by decide : Toml.AreKeys ["mode", "max_depth"]), ?_⟩, ?_⟩
  · exact List.forall_mem_singleton.2 trivial
  · exact List.forall_mem_cons.2 ⟨trivial, List.forall_mem_singleton.2 trivial⟩
  · exact List.forall_mem_cons.2 ⟨trivial, List.forall_mem_singleton.2 depth⟩
  · have last : ∀ e ∈ [("generator_timeout_secs", Toml.Plain.integer s.timeoutSeconds),
        ("cache_enabled", .boolean s.cacheEnabled)], e.2.Fits :=
      List.forall_mem_cons.2 ⟨timeout, List.forall_mem_singleton.2 trivial⟩
    cases concurrency : s.maxConcurrency with
    | none =>
      exact ⟨(by decide : Toml.AreKeys ["generator_timeout_secs", "cache_enabled"]), last⟩
    | some n =>
      have first : Toml.Plain.Fits (.integer n) :=
        fits_of_mem_numbers h (by simp [numbers, concurrency])
      exact ⟨(by decide : Toml.AreKeys
        ["max_concurrency", "generator_timeout_secs", "cache_enabled"]),
        List.forall_mem_cons.2 ⟨first, last⟩⟩

theorem isSmall_sheet (s : Settings) : ∀ t ∈ s.sheet, Setting.lower t.1 = t.1 ∧
    ∀ e ∈ t.2, Setting.lower e.1 = e.1 := by
  cases concurrency : s.maxConcurrency
  all_goals
    simp only [sheet, concurrency, List.nil_append, List.cons_append, List.forall_mem_cons,
      List.not_mem_nil, false_implies, implies_true]
    decide

section Sections
variable {get : String → Option Setting} {s : Settings}

theorem root_taken {root : String} (hroot : get "root" = some (.text root)) :
    takeRegistry? get s = some { s with root } := by
  unfold takeRegistry?
  rw [hroot]
  rfl

theorem parser_taken {name : String} {missingPackage : MissingPackage}
    (hname : get "directive_namespace" = some (.text name))
    (hmissing : get "missing_package" = some (.text (missingPackageWord missingPackage))) :
    takeParser? get s = some { s with directiveNamespace := name, missingPackage } := by
  rw [takeParser?, hname, hmissing]
  cases missingPackage <;> rfl

theorem resolver_taken {mode : ResolutionMode} {maxDepth : Nat}
    (hmode : get "mode" = some (.text (modeWord mode)))
    (hdepth : get "max_depth" = some (.integer maxDepth)) :
    takeResolver? get s = some { s with mode, maxDepth } := by
  rw [takeResolver?, hmode, hdepth]
  simp only [part?, Setting.natural?_natCast]
  cases mode <;> rfl

theorem compiler_taken {maxConcurrency : Option Nat} {timeoutSeconds : Nat} {cacheEnabled : Bool}
    (unset : s.maxConcurrency = none)
    (hconcurrency : get "max_concurrency" = maxConcurrency.map fun n => .integer n)
    (htimeout : get "generator_timeout_secs" = some (.integer timeoutSeconds))
    (hcache : get "cache_enabled" = some (.boolean cacheEnabled)) :
    takeCompiler? get s = some { s with maxConcurrency, timeoutSeconds, cacheEnabled } := by
  rw [takeCompiler?, hconcurrency, htimeout, hcache, unset]
  cases maxConcurrency with
  | none =>
    simp only [part?, Setting.natural?_natCast, Option.map_none]
    rfl
  | some n =>
    simp only [part?, openNatural?, Setting.natural?_natCast, Option.map_some]
    rfl

theorem within?_eq {names : List String} {name : String} {entries es : List (String × Setting)}
    {take? : (String → Option Setting) → Settings → Option Settings} {s s' : Settings}
    (found : Setting.find? name entries = some (.table es))
    (taken : take? (fun name => Setting.find? name es) s = some s') :
    within? names take? s (Setting.find? name entries) = some s' := by
  rw [found]
  exact taken

end Sections

/-- What settings are saved as is taken for them. -/
theorem ofSetting?_layer (s : Settings) : ofSetting? (.table s.sheet.layer) = some s := by
  have registry : within? ["root"] takeRegistry? {} (Setting.find? "registry" s.sheet.layer) =
      some { root := s.root } :=
    within?_eq rfl (root_taken rfl)
  have parser : within? ["directive_namespace", "missing_package"] takeParser? { root := s.root }
      (Setting.find? "parser" s.sheet.layer) =
      some { root := s.root, directiveNamespace := s.directiveNamespace,
             missingPackage := s.missingPackage } :=
    within?_eq rfl (parser_taken rfl rfl)
  have resolver : within? ["mode", "max_depth"] takeResolver?
      { root := s.root, directiveNamespace := s.directiveNamespace,
        missingPackage := s.missingPackage } (Setting.find? "resolver" s.sheet.layer) =
      some { root := s.root, directiveNamespace := s.directiveNamespace,
             missingPackage := s.missingPackage, mode := s.mode, maxDepth := s.maxDepth } :=
    within?_eq rfl (resolver_taken rfl rfl)
  have compiler : within? ["max_concurrency", "generator_timeout_secs", "cache_enabled"]
      takeCompiler?
      { root := s.root, directiveNamespace := s.directiveNamespace,
        missingPackage := s.missingPackage, mode := s.mode, maxDepth := s.maxDepth }
      (Setting.find? "compiler" s.sheet.layer) = some s := by
    obtain ⟨root, name, missing, mode, depth, concurrency, timeout, cache⟩ := s
    cases concurrency with
    | none => exact within?_eq rfl (compiler_taken rfl rfl rfl rfl)
    | some n => exact within?_eq rfl (compiler_taken rfl rfl rfl rfl)
  simp only [ofSetting?, Setting.entries, registry, parser, resolver, compiler, bind,
    Option.bind_some]

end Settings

/-! ### Files and variables -/

namespace FileTree
variable {entries : List (String × FileTree)} {here path text : String}

/-- The file of settings at a path, if there is one, holds a text in TOML. -/
def OffersOnly (here : String) (tree : FileTree) (path text : String) : Prop :=
  ∀ found ∈ tree.findSettings? here path, found = (.toml, Text.Utf8.encode text.toList)

theorem follow_ne_file {parts : List String} (h : ∀ part ∈ parts, part ∉ entries.map Prod.fst)
    (bytes : List UInt8) : follow [] (directory entries) parts ≠ .ok (file bytes) := by
  induction parts generalizing entries with
  | nil => nofun
  | cons part parts ih =>
    obtain ⟨first, others⟩ := List.forall_mem_cons.1 h
    rw [follow]
    split_ifs
    · exact ih others
    · exact ih fun _ _ => List.not_mem_nil
    · have absent : entry part entries = .error .nameTooLong ∨
          entry part entries = .error .missing := by
        rw [entry, find?_key_eq_none first]
        split_ifs
        · exact .inl rfl
        · exact .inr rfl
      rcases absent with absent | absent <;> rw [absent] <;> nofun

/-- A path finds no file where none of its parts is the name of anything. -/
theorem fileAt?_eq_none (h : ∀ part ∈ parts path, part ∉ entries.map Prod.fst) :
    fileAt? here (directory entries) path = none := by
  have nowhere (bytes : List UInt8) :
      (directory entries).lookupBelow here path ≠ .ok (file bytes) := by
    unfold lookupBelow lookup
    cases checkPath (Path.join here path) with
    | error fault => rintro ⟨⟩
    | ok _ =>
      cases checkPath path with
      | error fault => rintro ⟨⟩
      | ok _ =>
        show follow [] (if _ then empty else _) (parts path) ≠ _
        split_ifs
        · exact follow_ne_file (fun _ _ => List.not_mem_nil) bytes
        · exact follow_ne_file h bytes
  unfold fileAt?
  split
  · next found => exact absurd found (nowhere _)
  · rfl

/-- Nor are there any settings. -/
theorem offersOnly_of_absent (h : ∀ p ∈ path :: SettingsFormat.extensions.filterMap
    (Path.withExtension? ·.1 path), ∀ part ∈ parts p, part ∉ entries.map Prod.fst) :
    (directory entries).OffersOnly here path text := by
  obtain ⟨own, others⟩ := List.forall_mem_cons.1 h
  have none : (directory entries).findSettings? here path = none := by
    unfold findSettings?
    rw [fileAt?_eq_none own]
    refine List.findSome?_eq_none_iff.2 fun (extension, format) he => ?_
    refine Option.bind_eq_none_iff.2 fun p longer => ?_
    rw [fileAt?_eq_none (others p (List.mem_filterMap.2 ⟨_, he, longer⟩))]
    rfl
  rw [OffersOnly, none]
  nofun

variable {tree : FileTree} {isRequired : Bool} {layer : Layer}

theorem layer_of_found (read : SettingsFormat.read .toml text = .ok layer)
    (found : tree.findSettings? here path = some (.toml, Text.Utf8.encode text.toList)) :
    tree.layer here path isRequired = .ok layer := by
  have settings : tree.settingsText? here path = some (.toml, text) := by
    unfold settingsText?
    rw [found]
    simp only [Text.Utf8.decode_eq_ok_iff.2 rfl]
  unfold FileTree.layer
  rw [settings]
  exact read

theorem layer_of_offersOnly (read : SettingsFormat.read .toml text = .ok layer)
    (only : tree.OffersOnly here path text) :
    tree.layer here path false = .ok [] ∨ tree.layer here path false = .ok layer := by
  cases found : tree.findSettings? here path with
  | none =>
    left
    unfold FileTree.layer settingsText?
    rw [found]
    rfl
  | some file =>
    right
    rw [only file found] at found
    exact layer_of_found read found

end FileTree

namespace SettingsSource

/-- The only settings to be found are in the file asked for, which holds a text and is one in TOML
by its name: there is no other file at the places looked at, and no variable has a setting. -/
structure HasOnly (src : SettingsSource) (text : String) : Prop where
  asked : ∃ path, src.path = some path ∧ SettingsFormat.ofPath? path = some .toml ∧
    src.files.fileAt? src.here path = some (Text.Utf8.encode text.toList)
  places : ∀ place ∈ places, src.files.OffersOnly src.here place text
  user : src.userFiles.OffersOnly "" place text
  environment : ∀ e ∈ src.environment, Layer.variablePath? e.1 = none

variable {src : SettingsSource} {text : String} {layer : Layer} {all : List (Except Error Layer)}

theorem cover_ok {below found : Setting} (h : layer.cover below = some found) :
    cover below (.ok layer) = .ok found := by
  simp only [cover, bind, Except.bind, h]

/-- Neither what is empty nor a layer that is there already adds anything. -/
theorem foldlM_cover_self (again : layer.cover (.table layer) = some (.table layer))
    (only : ∀ l ∈ all, l = .ok [] ∨ l = .ok layer) :
    all.foldlM cover (.table layer) = .ok (.table layer) := by
  induction all with
  | nil => rfl
  | cons l all ih =>
    obtain ⟨first, others⟩ := List.forall_mem_cons.1 only
    have step : cover (.table layer) l = .ok (.table layer) := by
      rcases first with rfl | rfl
      · rfl
      · exact cover_ok again
    rw [List.foldlM_cons, step]
    exact ih others

/-- If a layer is the only one that is not empty, all layers together are that layer. -/
theorem foldlM_cover_empty (alone : layer.cover (.table []) = some (.table layer))
    (again : layer.cover (.table layer) = some (.table layer))
    (only : ∀ l ∈ all, l = .ok [] ∨ l = .ok layer) (there : .ok layer ∈ all) :
    all.foldlM cover (.table []) = .ok (.table layer) := by
  induction all with
  | nil => cases there
  | cons l all ih =>
    obtain ⟨first, others⟩ := List.forall_mem_cons.1 only
    have later : cover (.table []) (.ok layer) >>= (all.foldlM cover ·) =
        .ok (.table layer) := by
      rw [cover_ok alone]
      exact foldlM_cover_self again others
    rw [List.foldlM_cons]
    rcases List.mem_cons.1 there with rfl | behind
    · exact later
    · rcases first with rfl | rfl
      · exact ih others behind
      · exact later

theorem HasOnly.pathLayer (only : src.HasOnly text)
    (read : SettingsFormat.read .toml text = .ok layer) : src.pathLayer = .ok layer := by
  obtain ⟨path, asked, format, file⟩ := only.asked
  unfold SettingsSource.pathLayer
  rw [asked]
  refine FileTree.layer_of_found read ?_
  unfold FileTree.findSettings?
  rw [file, format]
  rfl

theorem HasOnly.layers (only : src.HasOnly text)
    (read : SettingsFormat.read .toml text = .ok layer) :
    ∀ l ∈ src.layers, l = .ok [] ∨ l = .ok layer := by
  have user : src.userLayer = .ok [] ∨ src.userLayer = .ok layer := by
    unfold userLayer
    split
    · exact FileTree.layer_of_offersOnly read only.user
    · exact .inl rfl
  have unset : Layer.ofVariables src.environment = [] := by
    refine List.filterMap_eq_nil_iff.2 fun (name, value) he => ?_
    show (Layer.variablePath? name).map _ = none
    rw [only.environment (name, value) he, Option.map_none]
  refine List.forall_mem_append.2 ⟨List.forall_mem_map.2 fun place hplace =>
    FileTree.layer_of_offersOnly read (only.places place hplace), ?_⟩
  simp only [List.forall_mem_cons, List.not_mem_nil, false_implies, implies_true, and_true]
  exact ⟨user, .inr (only.pathLayer read), .inl (congrArg Except.ok unset)⟩

/-- A directory in which there is one file, the one asked for. -/
def alone (text : String) : SettingsSource where
  files := .directory [("saved.toml", .file (Text.Utf8.encode text.toList))]
  path := some "saved.toml"

theorem hasOnly_alone (text : String) : (alone text).HasOnly text where
  asked := by
    have named : FileTree.checkPath "saved.toml" = .ok () := rfl
    have below : FileTree.checkPath (Path.join "" "saved.toml") = .ok () := rfl
    have parts : FileTree.parts "saved.toml" = ["saved.toml"] := by decide +kernel
    refine ⟨"saved.toml", rfl, by decide +kernel, ?_⟩
    unfold alone FileTree.fileAt? FileTree.lookupBelow FileTree.lookup
    rw [named, below, parts, if_neg (by decide +kernel)]
    rfl
  places place hplace := by
    have absent : ∀ place ∈ places, ∀ p ∈ place :: SettingsFormat.extensions.filterMap
        (Path.withExtension? ·.1 place), ∀ part ∈ FileTree.parts p, part ∉ ["saved.toml"] := by
      decide +kernel
    exact FileTree.offersOnly_of_absent (absent place hplace)
  user := FileTree.offersOnly_of_absent fun _ _ _ _ => List.not_mem_nil
  environment := List.forall_mem_nil _

end SettingsSource

/-- **Saved settings are loaded again**, from a file in TOML that no other settings stand beside,
whatever their texts are. -/
theorem Settings.load_save (s : Settings) (h : ∀ n ∈ s.numbers, n ≤ 2 ^ 63 - 1) :
    ∃ text, s.save = .ok text ∧ ∀ src : SettingsSource, src.HasOnly text → src.load = .ok s := by
  have sound := isSound_sheet h
  have tidy := Toml.Sheet.isTidy_layer sound s.isSmall_sheet
  have steps : ∀ e ∈ s.sheet.layer, SettingPath.read e.1 = [.key e.1] :=
    List.forall_mem_map.2 fun t ht => (sound.names.bare t.1 (List.mem_map_of_mem ht)).read
  have alone : s.sheet.layer.cover (.table []) = some (.table s.sheet.layer) := by
    rw [Layer.cover_eq steps, Setting.layEntries_empty tidy]
  have again : s.sheet.layer.cover (.table s.sheet.layer) = some (.table s.sheet.layer) := by
    rw [Layer.cover_eq steps, Setting.layEntries_self tidy]
  have read : SettingsFormat.read .toml s.sheet.render = .ok s.sheet.layer := by
    have setting := Toml.Sheet.readSetting_render sound
    unfold SettingsFormat.read SettingsFormat.readSetting
    simp only [setting]
    rfl
  refine ⟨s.sheet.render, ?_, fun src only => ?_⟩
  · have all : s.numbers.all (· < Nat.pow 2 63) = true := by
      refine List.all_eq_true.2 fun n hn => decide_eq_true ?_
      have most := h n hn
      rw [Nat.pow_eq]
      omega
    rw [save, if_pos all]
  · have there : .ok s.sheet.layer ∈ src.layers := by
      have own := only.pathLayer read
      simp [SettingsSource.layers, own]
    have found := SettingsSource.foldlM_cover_empty alone again (only.layers read) there
    unfold SettingsSource.load
    rw [found]
    simp only [bind, Except.bind, ofSetting?_layer]

/-- Settings whose texts hold quotes of both kinds, backslashes, line ends and controls. -/
def Settings.unwieldy : Settings where
  root := "it's \"here\"\n\\ \r\x00\x7f"
  directiveNamespace := "'''\"\"\""
  missingPackage := .empty
  mode := .transitive
  maxDepth := 2 ^ 63 - 1
  cacheEnabled := false

theorem Settings.load_save_unwieldy : ∃ text, unwieldy.save = .ok text ∧
    (SettingsSource.alone text).load = .ok unwieldy := by
  obtain ⟨text, saved, loads⟩ := load_save unwieldy (by decide)
  exact ⟨text, saved, loads _ (SettingsSource.hasOnly_alone text)⟩

end SchemaDepot
