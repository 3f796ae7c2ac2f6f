import Stencil.Settings.Config
import Stencil.Settings.Dom

/-! # Two ways to set the browser platform

What can be set on the browser platform can also be said in a configuration that leaves the preset
open. The two records are read by different rules: one starts from values and replaces them, the
other starts from nothing and adds to the preset what is given. Member by member they stay in step,
so both end in the same options or fail for the same reason, unless a value is left open by `null`
that only the second record can leave open.
-/

namespace Stencil

namespace Decoder

variable {α σ τ : Type} {R : σ → τ → Prop}

/-- Two readings come out alike: with related results, or both with the same fault. -/
inductive Alike (R : σ → τ → Prop) :
    Except SettingsFault σ → Except SettingsFault τ → Prop where
  | ok {r : σ} {q : τ} (h : R r q) : Alike R (.ok r) (.ok q)
  | error (fault : SettingsFault) : Alike R (.error fault) (.error fault)

namespace Alike

theorem exists_ok_iff {x : Except SettingsFault σ} {y : Except SettingsFault τ}
    (h : Alike R x y) : (∃ r, x = .ok r) ↔ ∃ q, y = .ok q := by
  cases h with
  | ok related => exact ⟨fun _ => ⟨_, rfl⟩, fun _ => ⟨_, rfl⟩⟩
  | error fault => exact ⟨nofun, nofun⟩

theorem error_iff {x : Except SettingsFault σ} {y : Except SettingsFault τ} (h : Alike R x y)
    (fault : SettingsFault) : x = .error fault ↔ y = .error fault := by
  cases h with
  | ok related => exact ⟨nofun, nofun⟩
  | error other => simp

end Alike

/-- A value does the same to two fields: related records stay related, or both refuse it. -/
def Field.Alike (R : σ → τ → Prop) (v : Json) (f : Field σ) (g : Field τ) : Prop :=
  ∀ r q, R r q → Decoder.Alike R (f.set v r) (g.set v q)

section

variable {key other : String} {d : Decoder α} {store : α → σ → σ} {v : Json}

/-- Two fields read a value in the same way. -/
theorem Field.alike_of_same {put : α → τ → τ}
    (keeps : ∀ r q a, R r q → R (store a r) (put a q)) :
    Field.Alike R v (field key d store) (field other d put) := by
  intro r q related
  simp only [field]
  cases d v with
  | ok a => exact .ok (keeps r q a related)
  | error fault => exact .error fault

/-- A field that may be left open reads a value that is given like one that may not. -/
theorem Field.alike_of_given {put : Option α → τ → τ} (given : v ≠ .null)
    (keeps : ∀ r q a, R r q → R (store a r) (put (some a) q)) :
    Field.Alike R v (field key d store) (field other (optional d) put) := by
  intro r q related
  have reads : optional d v = (d v).map some := by
    unfold optional
    split
    · exact absurd rfl given
    · rfl
  simp only [field, reads]
  cases d v with
  | ok a => exact .ok (keeps r q a related)
  | error fault => exact .error fault

end

/-- Two records whose fields have the same keys and do alike with every member are read alike. -/
theorem members_alike {fields : List (Field σ)} {others : List (Field τ)}
    {ms : List (String × Json)}
    (each : ∀ m ∈ ms, Option.Rel (Field.Alike R m.2) (fields.find? fun f => f.key == m.1)
      (others.find? fun g => g.key == m.1))
    (seen : List String) {r : σ} {q : τ} (related : R r q) :
    Alike R (members fields seen r ms) (members others seen q ms) := by
  induction ms generalizing seen r q with
  | nil => exact .ok related
  | cons m ms ih =>
      obtain ⟨key, v⟩ := m
      obtain ⟨first, later⟩ := List.forall_mem_cons.mp each
      simp only [members]
      generalize fields.find? (fun f => f.key == key) = found at first
      generalize others.find? (fun g => g.key == key) = found' at first
      cases first with
      | some both =>
          have set := both r q related
          dsimp only
          split
          · exact .error _
          · generalize Field.set _ v r = x at set
            generalize Field.set _ v q = y at set
            cases set with
            | ok related => exact ih later (key :: seen) related
            | error fault => exact .error fault
      | none =>
          dsimp only
          split
          · exact ih later seen related
          · exact .error _

end Decoder

/-- Parser settings say what settings of the browser platform say; what they leave open has its
    default there. -/
structure ParserSettings.Says (p : ParserSettings) (s : DomSettings) : Prop where
  preset : p.preset = .dom
  delimiters : p.delimiters = s.delimiters
  whitespace : p.whitespace.getD .condense = s.whitespace
  comments : p.comments.getD true = s.comments
  legacy : p.legacy = s.legacy
  maxDepth : p.maxDepth.getD Options.defaultMaxDepth = s.maxDepth

namespace DomSettings

/-- Settings that say the same come to the same options. -/
theorem apply_eq_toOptions {s : DomSettings} {p : ParserSettings} (h : p.Says s) :
    s.apply Dom.options = p.toOptions := by
  obtain ⟨whitespace, comments, delimiters, legacy, maxDepth⟩ := s
  obtain ⟨preset, delimiters', whitespace', comments', legacy', maxDepth'⟩ := p
  obtain ⟨rfl, rfl, rfl, rfl, rfl, rfl⟩ := h
  cases legacy' <;> rfl

/-- A member does the same to both records, unless it chooses a preset or leaves open what is not
    open in both. -/
theorem field_alike {key : String} {v : Json} (other : key ≠ "preset")
    (given : key ∈ ["whitespace", "comments", "maxDepth"] → v ≠ .null) :
    Option.Rel (Decoder.Field.Alike (fun s p => p.Says s) v) (fields.find? fun f => f.key == key)
      (ParserSettings.fields.find? fun f => f.key == key) := by
  by_cases whitespace : key = "whitespace"
  · subst whitespace
    exact .some (Decoder.Field.alike_of_given (given (by simp)) fun _ _ _ same =>
      { same with whitespace := rfl })
  by_cases comments : key = "comments"
  · subst comments
    exact .some (Decoder.Field.alike_of_given (given (by simp)) fun _ _ _ same =>
      { same with comments := rfl })
  by_cases delimiters : key = "delimiters"
  · subst delimiters
    exact .some (Decoder.Field.alike_of_same fun _ _ _ same => { same with delimiters := rfl })
  by_cases compat : key = "compat"
  · subst compat
    exact .some (Decoder.Field.alike_of_same fun _ _ _ same => { same with legacy := rfl })
  by_cases maxDepth : key = "maxDepth"
  · subst maxDepth
    exact .some (Decoder.Field.alike_of_given (given (by simp)) fun _ _ _ same =>
      { same with maxDepth := rfl })
  have unknown : fields.find? (fun f => f.key == key) = none := by
    simp [fields, Decoder.field, Ne.symm whitespace, Ne.symm comments, Ne.symm delimiters,
      Ne.symm compat, Ne.symm maxDepth]
  have unknown' : ParserSettings.fields.find? (fun f => f.key == key) = none := by
    simp [ParserSettings.fields, Decoder.field, Ne.symm other, Ne.symm whitespace,
      Ne.symm comments, Ne.symm delimiters, Ne.symm compat, Ne.symm maxDepth]
  rw [unknown, unknown']
  exact .none

theorem decode_alike {ms : List (String × Json)} (noPreset : ∀ m ∈ ms, m.1 ≠ "preset")
    (given : ∀ m ∈ ms, m.1 ∈ ["whitespace", "comments", "maxDepth"] → m.2 ≠ .null) :
    Decoder.Alike (fun s p => p.Says s) (decode (.obj ms)) (ParserSettings.decode (.obj ms)) := by
  refine Decoder.members_alike (fun m hm => field_alike (noPreset m hm) (given m hm)) [] ?_
  exact ⟨rfl, rfl, rfl, rfl, rfl, rfl⟩

end DomSettings

/-- An object that chooses no preset, and does not leave open by `null` what is always set on the
    browser platform, can be read as settings of that platform exactly if it can be read as parser
    settings, for the same reason if it cannot, and every template is then read in the same way. -/
theorem domSettings_agree (ms : List (String × Json)) (noPreset : ∀ m ∈ ms, m.1 ≠ "preset")
    (given : ∀ m ∈ ms, m.1 ∈ ["whitespace", "comments", "maxDepth"] → m.2 ≠ .null) :
    ((∃ s, DomSettings.decode (.obj ms) = .ok s) ↔
      ∃ p, ParserSettings.decode (.obj ms) = .ok p) ∧
    (∀ fault, DomSettings.decode (.obj ms) = .error fault ↔
      ParserSettings.decode (.obj ms) = .error fault) ∧
    ∀ s p, DomSettings.decode (.obj ms) = .ok s → ParserSettings.decode (.obj ms) = .ok p →
      ∀ source, Dom.parse s source = parse p.toOptions source := by
  have alike := DomSettings.decode_alike noPreset given
  refine ⟨alike.exists_ok_iff, alike.error_iff, fun s p dom parser source => ?_⟩
  rw [dom, parser] at alike
  cases alike with
  | ok same => rw [Dom.parse, DomSettings.apply_eq_toOptions same]

/-- Settings with an unknown member, an open one and a legacy configuration without members; and
    settings with a mode that does not exist. -/
theorem domSettings_agree_partly :
    (∃ s p, DomSettings.decode (.obj [("legacy", .null), ("delimiters", .null),
        ("whitespace", .str "preserve"), ("compat", .obj [])]) = .ok s ∧
      ParserSettings.decode (.obj [("legacy", .null), ("delimiters", .null),
        ("whitespace", .str "preserve"), ("compat", .obj [])]) = .ok p ∧
      s.legacy.isSome = true ∧ p.maxDepth = none ∧
      Dom.parse s "<template>\n</template>".toList =
        parse p.toOptions "<template>\n</template>".toList) ∧
    ParserSettings.decode (.obj [("comments", .bool false), ("compat", .obj [("mode", .int 4)])]) =
      .error (.badMode 4) := by
  constructor
  · obtain ⟨-, -, same⟩ := domSettings_agree [("legacy", .null), ("delimiters", .null),
      ("whitespace", .str "preserve"), ("compat", .obj [])] (by simp) (by simp)
    exact ⟨_, _, rfl, rfl, rfl, rfl, same _ _ rfl rfl _⟩
  · obtain ⟨-, fault, -⟩ := domSettings_agree
      [("comments", .bool false), ("compat", .obj [("mode", .int 4)])] (by simp) (by simp)
    exact (fault _).mp rfl

end Stencil
