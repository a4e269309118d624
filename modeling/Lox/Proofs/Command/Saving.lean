import Lox.Proofs.Command.Layers
import Lox.Proofs.Files.Writing

/-!
Settings that have been saved. What is saved at a path is found there (`World.entry_of_save`), and
settings are read back from their text, so they survive being saved (`settings_survive`).
-/

namespace Lox.Command

variable {w w' : World} {path : String} {s : Settings}

theorem World.entry_of_save {text : String} (h : w.save path text = (none, w')) :
    w'.entry path = .file (bytesOfText text) := by
  unfold save at h
  split at h
  · cases h
  · next p hp =>
    split at h
    · cases h
    · split at h
      · cases h
      · next files hfiles =>
        cases h
        have hfound := Files.Tree.find_of_writeFile hfiles
        simp only [entry, hp, hfound]

theorem holds_of_save {text : String} (h : w.save path text = (none, w')) :
    w'.Holds path (some text) :=
  .text (World.entry_of_save h) (textOfBytes?_bytesOfText text)

theorem settingsAt_of_save (hs : s.maxDepth < UInt64.size)
    (h : w.save path s.text = (none, w')) : settingsAt World.host path w' = (.ok s, w') := by
  rw [settingsAt_run (holds_of_save h), fileLayer, Settings.ofFile, Settings.ofText_text hs]

/-- Settings whose text is where the command looks for it are those that it loads, unless the
environment changes them. -/
theorem loadSettings_of_holds (hs : s.maxDepth < UInt64.size) (hfile : w.Holds path (some s.text))
    (hpath : (configPath World.host w).1 = .ok path)
    (hdebug : w.environment.lookup "LOX_DEBUG" = none)
    (hdepth : w.environment.lookup "LOX_MAX_DEPTH" = none) :
    loadSettings World.host w = (.ok s, w) := by
  rw [loadSettings_run hpath hfile, fileLayer, Settings.ofFile, Settings.ofText_text hs, hdebug,
    hdepth]
  simp only [depthLayer, layered_none]

/-- Settings with a depth of 64 bits survive being written and read: their text gives the same
settings again, and these the same text; and where a file has been saved with their text, the same
settings are found and loaded. -/
theorem settings_survive (hs : s.maxDepth < UInt64.size) :
    Settings.ofFile s.text = .ok s ∧ (Settings.ofFile s.text).map Settings.text = .ok s.text ∧
    ∀ (path : String) (w w' : World), w.save path s.text = (none, w') →
      settingsAt World.host path w' = (.ok s, w') ∧
      ((configPath World.host w').1 = .ok path →
        w'.environment.lookup "LOX_DEBUG" = none →
        w'.environment.lookup "LOX_MAX_DEPTH" = none →
        loadSettings World.host w' = (.ok s, w')) := by
  have hread : Settings.ofFile s.text = .ok s := by
    rw [Settings.ofFile, Settings.ofText_text hs]
  refine ⟨hread, ?_, fun path w w' h => ⟨settingsAt_of_save hs h, ?_⟩⟩
  · rw [hread]
    rfl
  · exact loadSettings_of_holds hs (holds_of_save h)

/-- The greatest depth of 64 bits, and a prompt with a quote, a backslash, controls and a character
beyond the basic plane. -/
theorem settings_survive_hard_prompt :
    let s : Settings := ⟨UInt64.size - 1, true, false, "\"\\ \n\r\t\x00\x1b\x7f\u2028😀> ", true⟩
    let path := "lox/new/config.json"
    let w : World := ⟨[("LOX_CONFIG", path)], ⟨[(["lox"], .directory)]⟩, [], "", ""⟩
    s.maxDepth < UInt64.size ∧ Settings.ofFile s.text = .ok s ∧
      ∃ w', w.save path s.text = (none, w') ∧ loadSettings World.host w' = (.ok s, w') := by
  intro s path w
  have hs : s.maxDepth < UInt64.size := by decide
  have hsave : (w.save path s.text).1 = none := by decide +kernel
  have hsaved : w.save path s.text = (none, (w.save path s.text).2) := Prod.ext hsave rfl
  have henvironment : (w.save path s.text).2.environment = [("LOX_CONFIG", path)] := by
    decide +kernel
  have hpath : (configPath World.host (w.save path s.text).2).1 = .ok path := by
    rw [configPath, bind_of_ok (valueOf?_run _ _), henvironment]
    rfl
  have hsurvive := settings_survive hs
  refine ⟨hs, hsurvive.1, _, hsaved, (hsurvive.2.2 path w _ hsaved).2 hpath ?_ ?_⟩
  · rw [henvironment]
    rfl
  · rw [henvironment]
    rfl

end Lox.Command
