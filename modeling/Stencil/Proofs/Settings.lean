import Stencil.Settings.Config
import Stencil.Settings.Dom

/-! # Settings that are written and read again

Settings have a JSON form, and they are read from JSON. What is written for a legacy configuration
is its mode and the name of each setting, while a setting is read from a truth value or a mark. So
settings that say nothing about single features are read back as they were, and the others are
refused because of the first of these names.
-/

namespace Stencil

/-! ## Objects -/

/-- An object whose keys are some of a sorted list keeps the order of its members. -/
theorem Json.object_of_sublist {members : List (String × Json)} (keys : List String)
    (sorted : keys.Pairwise fun a b => decide (a ≤ b) = true)
    (some : (members.map Prod.fst).Sublist keys) : Json.object members = .obj members := by
  rw [Json.object, List.mergeSort_of_pairwise]
  exact List.pairwise_map.mp (sorted.sublist some)

namespace Decoder

variable {σ α : Type} {fields : List (Field σ)}

/-- What one member of an object does to a record. -/
def setMember (fields : List (Field σ)) (r : σ) (member : String × Json) :
    Except SettingsFault σ :=
  match fields.find? fun f => f.key == member.1 with
  | some f => f.set member.2 r
  | none => if isPassable member.2 then .ok r else .error .malformed

/-- Members with keys of their own are read one after the other. -/
theorem members_of_nodup {ms : List (String × Json)} (distinct : (ms.map Prod.fst).Nodup)
    (seen : List String) (unseen : ∀ key ∈ ms.map Prod.fst, key ∉ seen) (r : σ) :
    members fields seen r ms = ms.foldlM (setMember fields) r := by
  induction ms generalizing seen r with
  | nil => rfl
  | cons member ms ih =>
      obtain ⟨key, v⟩ := member
      rw [List.map_cons, List.nodup_cons] at distinct
      obtain ⟨first, unseen⟩ := List.forall_mem_cons.mp unseen
      have fresh : seen.contains key = false := by simpa using first
      rw [members, List.foldlM_cons, setMember, fresh]
      dsimp only
      cases fields.find? fun f => f.key == key with
      | some f =>
          dsimp only
          cases f.set v r with
          | error fault => rfl
          | ok r =>
              refine ih distinct.2 (key :: seen) (fun other hk => ?_) r
              rw [List.mem_cons, not_or]
              exact ⟨fun same => distinct.1 (same ▸ hk), unseen other hk⟩
      | none =>
          dsimp only
          split
          · exact ih distinct.2 seen unseen r
          · rfl

/-- A record that is read from an object whose keys are some of a sorted list. -/
theorem record_object {ms : List (String × Json)} (keys : List String)
    (sorted : keys.Pairwise fun a b => decide (a ≤ b) = true) (distinct : keys.Nodup)
    (some : (ms.map Prod.fst).Sublist keys) (r : σ) :
    record fields r (.object ms) = ms.foldlM (setMember fields) r := by
  rw [Json.object_of_sublist keys sorted some, record]
  exact members_of_nodup (distinct.sublist some) [] (fun _ _ => List.not_mem_nil) r

/-- A member that is written only if it is set has its own key or none. -/
theorem key_sublist (key : String) (write : α → Json) (x : Option α) :
    ((x.map fun v => (key, write v)).toList.map Prod.fst).Sublist [key] := by
  cases x with
  | none => exact List.nil_sublist _
  | some v => exact .refl _

end Decoder

/-! ## Legacy configurations -/

namespace Legacy

theorem Feature.ofKey?_key (f : Feature) : ofKey? f.key = some f := by
  cases f <;> rfl

/-- The name of a setting is none of the texts that a setting is read from. -/
theorem Setting.decode_name (setting : Setting) :
    decode (.str setting.name) = .error (.badSetting setting.name) := by
  cases setting <;> rfl

namespace Config

/-- Nothing is said about single features. -/
def IsPlain (config : Config) : Prop :=
  ∀ f, config.overrides f = none

/-- What is written about single features. -/
def written (config : Config) : List (String × Json) :=
  Feature.all.filterMap fun f => (config.overrides f).map fun setting => (f.key, .str setting.name)

theorem toJson_eq (config : Config) :
    config.toJson =
      .object [("mode", .nat config.mode.number), ("overrides", .object config.written)] := rfl

/-- Reading what was written for a configuration comes down to what was written about features. -/
theorem decode_toJson (config : Config) :
    decode config.toJson =
      decodeOverrides (ofMode config.mode)
        (config.written.mergeSort fun a b => decide (a.1 ≤ b.1)) := by
  have mode : Mode.decode (.nat config.mode.number) = .ok config.mode := by
    cases config.mode <;> rfl
  have overrides : Decoder.setMember fields (ofMode config.mode)
      ("overrides", .object config.written) = decodeOverrides (ofMode config.mode)
        (config.written.mergeSort fun a b => decide (a.1 ≤ b.1)) := rfl
  have first : Decoder.setMember fields (ofMode .v2) ("mode", .nat config.mode.number) =
      .ok (ofMode config.mode) := by
    change (Mode.decode _).map _ = _
    rw [mode]
    rfl
  rw [toJson_eq, decode, Decoder.record_object ["mode", "overrides"] (by decide) (by decide)
    (by simp), List.foldlM_cons, first]
  change (Decoder.setMember _ _ _ >>= pure) = _
  rw [bind_pure, overrides]

theorem decode_toJson_of_isPlain {config : Config} (plain : config.IsPlain) :
    decode config.toJson = .ok config := by
  have nothing : config.written = [] := by simp [written, plain _]
  have same : ofMode config.mode = config := by
    cases config with
    | mk mode overrides => exact congrArg (Config.mk mode) (funext fun f => (plain f).symm)
  rw [decode_toJson, nothing, List.mergeSort_nil, same]
  rfl

theorem mem_written {config : Config} {member : String × Json} :
    member ∈ config.written ↔
      ∃ f setting, config.overrides f = some setting ∧ (f.key, .str setting.name) = member := by
  simp [written, Feature.mem_all]

/-- A configuration that says something about a feature is refused because of the name of what it
    says about one. -/
theorem decode_toJson_of_override {config : Config} {f : Feature} {setting : Setting}
    (said : config.overrides f = some setting) :
    ∃ g other, config.overrides g = some other ∧
      decode config.toJson = .error (.badSetting other.name) := by
  have member : (f.key, .str setting.name) ∈ config.written.mergeSort fun a b =>
      decide (a.1 ≤ b.1) := List.mem_mergeSort.mpr (mem_written.mpr ⟨f, setting, said, rfl⟩)
  obtain ⟨first, rest, split⟩ := List.exists_cons_of_ne_nil (List.ne_nil_of_mem member)
  have written : first ∈ config.written := by
    rw [← List.mem_mergeSort, split]
    exact List.mem_cons_self
  obtain ⟨g, other, said, rfl⟩ := mem_written.mp written
  refine ⟨g, other, said, ?_⟩
  rw [decode_toJson, split, decodeOverrides, Feature.ofKey?_key]
  dsimp only
  rw [Setting.decode_name]

end Config

/-- An optional configuration says nothing about single features. -/
def IsPlain (config : Option Config) : Prop :=
  ∀ c ∈ config, c.IsPlain

/-- How an optional configuration is read from what is written for it. -/
def again : Option Config → Except SettingsFault (Option Config)
  | none => .ok none
  | some c => (Config.decode c.toJson).map some

theorem again_of_isPlain {config : Option Config} (plain : IsPlain config) :
    again config = .ok config := by
  cases config with
  | none => rfl
  | some c =>
      rw [again, Config.decode_toJson_of_isPlain (plain c rfl)]
      rfl

theorem again_of_override {config : Option Config} {c : Config} (hc : c ∈ config) {f : Feature}
    {setting : Setting} (said : c.overrides f = some setting) :
    ∃ g other, c.overrides g = some other ∧ again config = .error (.badSetting other.name) := by
  obtain ⟨g, other, said, fault⟩ := Config.decode_toJson_of_override said
  refine ⟨g, other, said, ?_⟩
  obtain rfl : config = some c := hc
  rw [again, fault]
  rfl

end Legacy

/-! ## Settings -/

theorem Decoder.size_nat {n : Nat} (h : n < UInt64.size) : Decoder.size (.nat n) = .ok n :=
  if_pos h

namespace ParserSettings

theorem foldlM_delimiters (delimiters : Option (String × String)) (comments : Option Bool)
    (l : Option Legacy.Config) :
    (delimiters.map fun (a, b) => ("delimiters", Json.arr [.str a, .str b])).toList.foldlM
      (Decoder.setMember fields) ⟨.dom, none, none, comments, l, none⟩ =
        .ok ⟨.dom, delimiters, none, comments, l, none⟩ := by
  cases delimiters <;> rfl

/-- The settings are read back but for their legacy configuration. -/
theorem decode_toJson (s : ParserSettings) (sized : ∀ n ∈ s.maxDepth, n < UInt64.size) :
    decode s.toJson = (Legacy.again s.legacy).map fun l => { s with legacy := l } := by
  obtain ⟨preset, delimiters, whitespace, comments, legacy, maxDepth⟩ := s
  -- The members in the order of their keys; each finds the later fields still unset.
  have first : (comments.map fun b => ("comments", Json.bool b)).toList.foldlM
      (Decoder.setMember fields) default = .ok ⟨.dom, none, none, comments, none, none⟩ := by
    cases comments <;> rfl
  have second : (legacy.map fun config => ("compat", config.toJson)).toList.foldlM
      (Decoder.setMember fields) ⟨.dom, none, none, comments, none, none⟩ =
        (Legacy.again legacy).map fun l => ⟨.dom, none, none, comments, l, none⟩ := by
    cases legacy with
    | none => rfl
    | some config =>
        change ((((Legacy.Config.decode config.toJson).map some).map _ : Except _ _) >>= pure) = _
        rw [bind_pure]
        rfl
  have third := foldlM_delimiters delimiters comments
  have fourth : ∀ l, (maxDepth.map fun n => ("maxDepth", Json.nat n)).toList.foldlM
      (Decoder.setMember fields) ⟨.dom, delimiters, none, comments, l, none⟩ =
        .ok ⟨.dom, delimiters, none, comments, l, maxDepth⟩ := by
    intro l
    cases maxDepth with
    | none => rfl
    | some n =>
        change ((((Decoder.size (.nat n)).map some).map _ : Except _ _) >>= pure) = _
        rw [Decoder.size_nat (sized n rfl)]
        rfl
  have fifth : ∀ l, [("preset", Json.str preset.name)].foldlM
      (Decoder.setMember fields) ⟨.dom, delimiters, none, comments, l, maxDepth⟩ =
        .ok ⟨preset, delimiters, none, comments, l, maxDepth⟩ := by
    intro l
    cases preset <;> rfl
  have sixth : ∀ l, (whitespace.map fun w => ("whitespace", Json.str w.name)).toList.foldlM
      (Decoder.setMember fields) ⟨preset, delimiters, none, comments, l, maxDepth⟩ =
        .ok ⟨preset, delimiters, whitespace, comments, l, maxDepth⟩ := by
    intro l
    rcases whitespace with _ | ⟨_ | _⟩ <;> rfl
  rw [decode, toJson, Decoder.record_object ["comments", "compat", "delimiters", "maxDepth",
    "preset", "whitespace"] (by decide) (by decide)]
  · simp only [List.foldlM_append, first]
    cases again : Legacy.again legacy with
    | error fault =>
        rw [again] at second
        simp only [second, Except.map, bind, Except.bind]
    | ok l =>
        rw [again] at second
        simp only [second, third, fourth, fifth, sixth, Except.map, bind, Except.bind]
  · simp only [List.map_append]
    have key := fun {α : Type} => Decoder.key_sublist (α := α)
    exact (((((key _ _ _).append (key _ _ _)).append (key _ _ _)).append (key _ _ _)).append
      (.refl _)).append (key _ _ _)

end ParserSettings

/-- A configuration file is read back but for the legacy configuration in it. -/
theorem ConfigFile.decode_toJson (c : ConfigFile)
    (sized : ∀ n ∈ c.parser.maxDepth, n < UInt64.size) :
    decode c.toJson = (Legacy.again c.parser.legacy).map fun l =>
      { c with parser := { c.parser with legacy := l } } := by
  obtain ⟨schema, parser⟩ := c
  have first : (schema.map fun s => ("$schema", Json.str s)).toList.foldlM
      (Decoder.setMember fields) default = .ok ⟨schema, .default⟩ := by
    cases schema <;> rfl
  have second : [("parser", parser.toJson)].foldlM (Decoder.setMember fields) ⟨schema, .default⟩ =
      (Legacy.again parser.legacy).map fun l => ⟨schema, { parser with legacy := l }⟩ := by
    change (((ParserSettings.decode parser.toJson).map _ : Except _ _) >>= pure) = _
    rw [bind_pure, parser.decode_toJson sized]
    cases Legacy.again parser.legacy <;> rfl
  rw [decode, toJson, Decoder.record_object ["$schema", "parser"] (by decide) (by decide)]
  · rw [List.foldlM_append, first]
    exact second
  · rw [List.map_append]
    exact (Decoder.key_sublist _ _ _).append (.refl _)

theorem DomSettings.setMember_delimiters (delimiters : Option (String × String))
    (comments : Bool) (l : Option Legacy.Config) :
    Decoder.setMember fields ⟨.condense, comments, none, l, Options.defaultMaxDepth⟩
      ("delimiters", delimiters.elim .null fun (a, b) => .arr [.str a, .str b]) =
        .ok ⟨.condense, comments, delimiters, l, Options.defaultMaxDepth⟩ := by
  cases delimiters <;> rfl

/-- The settings of the browser platform are read back but for their legacy configuration. -/
theorem DomSettings.decode_toJson (s : DomSettings) (sized : s.maxDepth < UInt64.size) :
    decode s.toJson = (Legacy.again s.legacy).map fun l => { s with legacy := l } := by
  obtain ⟨whitespace, comments, delimiters, legacy, maxDepth⟩ := s
  have first : Decoder.setMember fields default ("comments", .bool comments) =
      .ok ⟨.condense, comments, none, none, Options.defaultMaxDepth⟩ := rfl
  have second : Decoder.setMember fields ⟨.condense, comments, none, none, Options.defaultMaxDepth⟩
      ("compat", legacy.elim .null Legacy.Config.toJson) = (Legacy.again legacy).map fun l =>
        ⟨.condense, comments, none, l, Options.defaultMaxDepth⟩ := by
    cases legacy <;> rfl
  have third := setMember_delimiters delimiters comments
  have fourth : ∀ l, Decoder.setMember fields
      ⟨.condense, comments, delimiters, l, Options.defaultMaxDepth⟩ ("maxDepth", .nat maxDepth) =
        .ok ⟨.condense, comments, delimiters, l, maxDepth⟩ := by
    intro l
    change (Decoder.size (.nat maxDepth)).map _ = _
    rw [Decoder.size_nat sized]
    rfl
  have fifth : ∀ l, Decoder.setMember fields ⟨.condense, comments, delimiters, l, maxDepth⟩
      ("whitespace", .str whitespace.name) =
        .ok ⟨whitespace, comments, delimiters, l, maxDepth⟩ := by
    intro l
    cases whitespace <;> rfl
  rw [decode, toJson, Decoder.record_object ["comments", "compat", "delimiters", "maxDepth",
    "whitespace"] (by decide) (by decide) (by simp)]
  simp only [List.foldlM_cons, List.foldlM_nil, first, bind, Except.bind]
  rw [second]
  cases Legacy.again legacy with
  | error fault => rfl
  | ok l => simp only [third, fourth, fifth, Except.map, pure, Except.pure]

/-- How a value fares whose JSON form is read again: it comes back as it was if its legacy
    configuration says nothing about single features, and otherwise it is refused because of the
    name of one of these settings. -/
structure ReadsBack {α : Type} (decode : Decoder α) (json : Json) (value : α)
    (legacy : Option Legacy.Config) : Prop where
  plain : Legacy.IsPlain legacy → decode json = .ok value
  overridden : ∀ c ∈ legacy, ∀ f setting, c.overrides f = some setting →
    ∃ g other, c.overrides g = some other ∧ decode json = .error (.badSetting other.name)

theorem readsBack_of_again {α : Type} {decode : Decoder α} {json : Json} {value : α}
    {legacy : Option Legacy.Config} {store : Option Legacy.Config → α}
    (h : decode json = (Legacy.again legacy).map store) (whole : store legacy = value) :
    ReadsBack decode json value legacy where
  plain plain := by
    rw [h, Legacy.again_of_isPlain plain, ← whole]
    rfl
  overridden c hc f setting said := by
    obtain ⟨g, other, said, fault⟩ := Legacy.again_of_override hc said
    exact ⟨g, other, said, by rw [h, fault]; rfl⟩

/-- Settings are read back from their JSON form, all fields in every combination, as long as nothing
    is said about single legacy features; the numbers are those that fit in 64 bits. -/
theorem settings_read_back (c : ConfigFile) (s : DomSettings)
    (fileSized : ∀ n ∈ c.parser.maxDepth, n < UInt64.size) (domSized : s.maxDepth < UInt64.size) :
    ReadsBack ConfigFile.decode c.toJson c c.parser.legacy ∧
      ReadsBack DomSettings.decode s.toJson s s.legacy :=
  ⟨readsBack_of_again (c.decode_toJson fileSized) rfl,
    readsBack_of_again (s.decode_toJson domSized) rfl⟩

/-- A file that sets every field is read back; settings with an override are not. -/
theorem settings_read_back_set :
    (∃ c : ConfigFile, c.schema.isSome ∧ c.parser.maxDepth.isSome ∧ c.parser.legacy.isSome ∧
      ConfigFile.decode c.toJson = .ok c) ∧
    ∃ s : DomSettings, s.delimiters.isSome ∧ ∃ other, DomSettings.decode s.toJson =
      .error (.badSetting other) := by
  have sized : ∀ n ∈ some 3, n < UInt64.size := by
    rintro n ⟨⟩
    decide
  obtain ⟨file, dom⟩ := settings_read_back
    ⟨some "gesso.schema.json", ⟨.base, some ("[[", "]]"), some .preserve, some false,
      some (.ofMode .v3), some 3⟩⟩
    ⟨.condense, true, some ("[[", "]]"), some ((Legacy.Config.ofMode .v2).set .vBindSync .enabled),
      512⟩ sized (by decide)
  constructor
  · refine ⟨_, rfl, rfl, rfl, file.plain ?_⟩
    rintro c ⟨⟩ f
    rfl
  · obtain ⟨g, other, -, fault⟩ := dom.overridden _ rfl .vBindSync .enabled rfl
    exact ⟨_, rfl, other.name, fault⟩

/-- Settings that turn one legacy feature on are not read back. -/
theorem domSettings_not_read_back :
    DomSettings.decode (DomSettings.toJson ⟨.condense, true, none,
      some ((Legacy.Config.ofMode .v2).set .vBindSync .enabled), 512⟩) ≠
        .ok ⟨.condense, true, none, some ((Legacy.Config.ofMode .v2).set .vBindSync .enabled),
          512⟩ := by
  obtain ⟨g, other, -, fault⟩ := Legacy.again_of_override rfl (rfl :
    ((Legacy.Config.ofMode .v2).set .vBindSync .enabled).overrides .vBindSync = some .enabled)
  rw [DomSettings.decode_toJson _ (by decide), fault]
  exact nofun

end Stencil
