import GraphProjection.Config
import Mathlib.Tactic.Lemma

/-!
# What configurations promise

A record of a configuration is read entry by entry on top of its defaults, so what holds of the
defaults and of every entry that is read holds of the record (`asRecord_preserves`).

Main statement: `defaultPerPage_le_of_parse`, the page size of an accepted configuration fits in its
word.  Nothing more is promised of it: zero is accepted.
-/

namespace GraphProjection

namespace Toml

/-- What every step of a fold keeps, the fold keeps. -/
lemma foldlM_preserves {α β ε : Type} {P : β → Prop} {step : β → α → Except ε β}
    (hstep : ∀ before x after, P before → step before x = .ok after → P after)
    {xs : List α} {start done : β} (hstart : P start) (h : xs.foldlM step start = .ok done) :
    P done := by
  induction xs generalizing start with
  | nil =>
    cases h
    exact hstart
  | cons x xs ih =>
    rw [List.foldlM_cons] at h
    cases hx : step start x with
    | error e =>
      rw [hx] at h
      cases h
    | ok next =>
      rw [hx] at h
      exact ih (hstep start x next hstart hx) h

/-- What holds of the defaults of a record, and is kept by every entry, holds of the record. -/
theorem asRecord_preserves {α : Type} {P : α → Prop} {keys : List String} {defaults : α}
    {read : α → String → Toml → Except ConfigError α}
    (hread : ∀ record key value next, P record → read record key value = .ok next → P next)
    (hdefaults : P defaults) {value : Toml} {decoded : α}
    (h : value.asRecord keys defaults read = .ok decoded) : P decoded := by
  rw [asRecord] at h
  cases hentries : value.asRecordEntries keys with
  | error e =>
    rw [hentries] at h
    cases h
  | ok entries =>
    rw [hentries] at h
    exact foldlM_preserves (fun record entry next => hread record entry.1 entry.2 next) hdefaults h

/-- A value that comes out changed was there before the change. -/
lemma exists_of_map_eq_ok {α β : Type} {decoded : Except ConfigError α} {f : α → β} {b : β}
    (h : decoded.map f = .ok b) : ∃ a, decoded = .ok a ∧ f a = b := by
  cases decoded with
  | error e => cases h
  | ok a =>
    cases h
    exact ⟨a, rfl, rfl⟩

lemma le_maxSize_of_asSize {value : Toml} {n : Nat} (h : value.asSize = .ok n) :
    n ≤ maxSize := by
  unfold asSize at h
  split at h
  · split at h
    · next hle =>
      cases h
      exact hle
    · cases h
  · cases h

end Toml

lemma Settings.defaultPerPage_le_of_readEntry (s : Settings) (key : String) (value : Toml)
    (next : Settings) (hs : s.defaultPerPage ≤ maxSize) (h : s.readEntry key value = .ok next) :
    next.defaultPerPage ≤ maxSize := by
  unfold readEntry at h
  split at h
  · obtain ⟨debug, -, rfl⟩ := Toml.exists_of_map_eq_ok h
    exact hs
  · obtain ⟨size, hsize, rfl⟩ := Toml.exists_of_map_eq_ok h
    exact Toml.le_maxSize_of_asSize hsize
  · obtain ⟨policy, -, rfl⟩ := Toml.exists_of_map_eq_ok h
    exact hs
  · cases h

lemma Settings.defaultPerPage_le_of_ofToml {value : Toml} {s : Settings}
    (h : Settings.ofToml value = .ok s) : s.defaultPerPage ≤ maxSize :=
  Toml.asRecord_preserves Settings.defaultPerPage_le_of_readEntry (by decide) h

lemma Config.defaultPerPage_le_of_readEntry (c : Config) (key : String) (value : Toml)
    (next : Config) (hc : c.settings.defaultPerPage ≤ maxSize)
    (h : c.readEntry key value = .ok next) : next.settings.defaultPerPage ≤ maxSize := by
  unfold readEntry at h
  split at h
  · obtain ⟨settings, hsettings, rfl⟩ := Toml.exists_of_map_eq_ok h
    exact Settings.defaultPerPage_le_of_ofToml hsettings
  · obtain ⟨types, -, rfl⟩ := Toml.exists_of_map_eq_ok h
    exact hc
  · cases h

/-- The page size of an accepted configuration fits in its word. -/
theorem Config.defaultPerPage_le_of_parse {text : String} {c : Config}
    (h : Config.parse text = .ok c) : c.settings.defaultPerPage ≤ maxSize := by
  rw [parse] at h
  split at h
  · exact Toml.asRecord_preserves Config.defaultPerPage_le_of_readEntry (by decide) h
  · cases h

end GraphProjection
