import Activation.Proofs.FirstFailure
import Activation.Proofs.SiteOrder

namespace Activation

namespace Batch

-- Two batches that hold the same as far as the outcome goes, though one of them may have more
-- entries that bring in nothing and leave out nothing.
structure Alike (batch other : Batch) : Prop where
  precedence : batch.precedence = other.precedence
  origins : batch.origins = other.origins
  configurations : batch.entries.flatMap Entry.configurations =
    other.entries.flatMap Entry.configurations
  isExcluded : ∀ module, batch.isExcluded module = other.isExcluded module

variable {batch other : Batch}

theorem Alike.refl (batch : Batch) : batch.Alike batch := ⟨rfl, rfl, rfl, fun _ => rfl⟩

theorem Alike.finalize (h : batch.Alike other) : batch.finalize = other.finalize := by
  have hmerged : batch.merged = other.merged := by
    simp only [merged, h.configurations, h.isExcluded]
  rw [finalize_eq, finalize_eq, h.precedence, h.origins, hmerged]

theorem isExcluded_record (batch : Batch) (site : Site) (entry : Entry) (module : String) :
    (batch.record site entry).isExcluded module =
      (batch.isExcluded module || entry.exclusions.contains module) := by
  simp [isExcluded, record]

theorem Alike.record (h : batch.Alike other) (site : Site) (entry : Entry) :
    (batch.record site entry).Alike (other.record site entry) := by
  refine ⟨h.precedence, ?_, ?_, fun module => ?_⟩
  · rw [Batch.record, Batch.record, h.origins]
  · simp only [Batch.record, List.flatMap_append, h.configurations]
  · rw [isExcluded_record, isExcluded_record, h.isExcluded]

theorem Alike.record_disabled (h : batch.Alike other) (site : Site) :
    (batch.record site .disabled).Alike other := by
  refine ⟨h.precedence, h.origins, ?_, fun module => ?_⟩
  · rw [Batch.record, List.flatMap_append, h.configurations]
    exact List.append_nil _
  · rw [isExcluded_record, h.isExcluded]
    exact Bool.or_false _

end Batch

namespace Resolver

variable {σ : Type} {resolver : Resolver σ} {files : Snapshot} {batch other : Batch}

def notDisabled (resolver : Resolver σ) (sites : List Site) : List Site :=
  sites.filter fun site => decide (resolver.isEnabled site ≠ .ok false)

-- What is left behind when sites are resolved one after the other, whatever comes of it.
def resolveAll (resolver : Resolver σ) (files : Snapshot) (sites : List Site)
    (progress : Progress σ) : Progress σ :=
  sites.foldl (fun progress site => (resolver.resolve files site progress).2) progress

theorem notDisabled_cons_of_disabled {site : Site} (h : resolver.isEnabled site = .ok false)
    (sites : List Site) : resolver.notDisabled (site :: sites) = resolver.notDisabled sites :=
  List.filter_cons_of_neg (by simpa using h)

theorem notDisabled_cons {site : Site} (h : resolver.isEnabled site ≠ .ok false)
    (sites : List Site) :
    resolver.notDisabled (site :: sites) = site :: resolver.notDisabled sites :=
  List.filter_cons_of_pos (by simpa using h)

theorem processEach_notDisabled (h : batch.Alike other) (sites : List Site)
    (progress : Progress σ) :
    (Batch.processEach (resolver.resolve files) sites batch progress).Alike
      (Batch.processEach (resolver.resolve files) (resolver.notDisabled sites) other progress) := by
  induction sites generalizing batch other progress with
  | nil => exact h
  | cons site rest ih =>
      by_cases hoff : resolver.isEnabled site = .ok false
      · rw [notDisabled_cons_of_disabled hoff, Batch.processEach, resolve_of_disabled hoff]
        exact ih (h.record_disabled site) progress
      · rw [notDisabled_cons hoff, Batch.processEach, Batch.processEach]
        rcases resolver.resolve files site progress with ⟨error | entry, middle⟩
        · exact ih h middle
        · exact ih (h.record site entry) middle

theorem resolveAll_notDisabled (sites : List Site) (progress : Progress σ) :
    resolver.resolveAll files sites progress =
      resolver.resolveAll files (resolver.notDisabled sites) progress := by
  induction sites generalizing progress with
  | nil => rfl
  | cons site rest ih =>
      by_cases hoff : resolver.isEnabled site = .ok false
      · rw [notDisabled_cons_of_disabled hoff, resolveAll, List.foldl_cons,
          resolve_of_disabled hoff]
        exact ih progress
      · rw [notDisabled_cons hoff]
        exact ih _

theorem processAll_notDisabled (h : batch.Alike other) (sites : List Site)
    (progress : Progress σ) :
    (Session.processAll resolver files sites batch progress).1.bind Batch.finalize =
        (Session.processAll resolver files (resolver.notDisabled sites) other progress).1.bind
          Batch.finalize ∧
      (Session.processAll resolver files sites batch progress).2 =
        (Session.processAll resolver files (resolver.notDisabled sites) other progress).2 := by
  induction sites generalizing batch other progress with
  | nil => exact ⟨h.finalize, rfl⟩
  | cons site rest ih =>
      by_cases hoff : resolver.isEnabled site = .ok false
      · rw [notDisabled_cons_of_disabled hoff, Session.processAll, Resolver.process,
          resolve_of_disabled hoff]
        exact ih (h.record_disabled site) progress
      · rw [notDisabled_cons hoff, Session.processAll, Session.processAll, Resolver.process,
          Resolver.process]
        rcases resolver.resolve files site progress with ⟨error | entry, middle⟩
        · exact ⟨rfl, rfl⟩
        · exact ih (h.record site entry) middle

-- A site that is switched off changes nothing and calls nothing, however bad the files are. In a
-- session it can stand anywhere and leave out anything: the outcome and the report are the same
-- without it, whether the session goes on after a failure or ends with it.
theorem disabled_sites_are_inert (resolver : Resolver σ) (files : Snapshot) :
    (∀ site, resolver.isEnabled site = .ok false → ∀ progress,
      resolver.resolve files site progress = (.ok .disabled, progress) ∧
      resolver.noting.resolve files site (progress.noting []) =
        (.ok .disabled, progress.noting [])) ∧
    ∀ sites padded, resolver.notDisabled padded = resolver.notDisabled sites →
      ∀ (batch : Batch) (progress : Progress σ),
        (Batch.processEach (resolver.resolve files) padded batch progress).finalize =
          (Batch.processEach (resolver.resolve files) sites batch progress).finalize ∧
        resolver.resolveAll files padded progress = resolver.resolveAll files sites progress ∧
        (Session.processAll resolver files padded batch progress).1.bind Batch.finalize =
          (Session.processAll resolver files sites batch progress).1.bind Batch.finalize ∧
        (Session.processAll resolver files padded batch progress).2 =
          (Session.processAll resolver files sites batch progress).2 := by
  refine ⟨fun site hoff progress => ?_, fun sites padded hsites batch progress => ?_⟩
  · have hcourse : Course resolver files site progress (.ok .disabled) progress [] :=
      .disabled hoff
    exact ⟨hcourse.resolve, hcourse.resolve_noting⟩
  · obtain ⟨hpadded, hpaddedLeft⟩ := processAll_notDisabled (.refl batch) padded progress
    obtain ⟨hplain, hplainLeft⟩ := processAll_notDisabled (.refl batch) sites progress
    refine ⟨?_, ?_, ?_, ?_⟩
    · rw [(processEach_notDisabled (.refl batch) padded progress).finalize, hsites,
        (processEach_notDisabled (.refl batch) sites progress).finalize]
    · rw [resolveAll_notDisabled padded, hsites, ← resolveAll_notDisabled sites]
    · rw [hpadded, hsites, hplain]
    · rw [hpaddedLeft, hsites, hplainLeft]

theorem disabled_sites_are_inert_countingSlots :
    Session.countingSlots.resolve (fun _ => .file (.ok "]["))
        { origin := "off", enabled := some false } ⟨.ofRoots ["app"], [], 0⟩ =
          (.ok .disabled, ⟨.ofRoots ["app"], [], 0⟩) ∧
      (Batch.processEach (Session.countingSlots.resolve fun _ => .nothing .notFound)
        Session.oneDisabled
        (.start (.ofCatalog Session.catalogRepeatingA Catalog.defaultPoint Session.aAfterC))
        Session.preloaded).finalize =
          .ok [⟨{ origin := "main" }, "c"⟩, ⟨{ origin := "main" }, "a"⟩] := by
  have hresolve := (disabled_sites_are_inert Session.countingSlots fun _ => .file (.ok "][")).1
    { origin := "off", enabled := some false } rfl ⟨.ofRoots ["app"], [], 0⟩
  have hsession := (disabled_sites_are_inert Session.countingSlots fun _ => .nothing .notFound).2
    (Session.oneDisabled.drop 1) Session.oneDisabled (by decide)
    (.start (.ofCatalog Session.catalogRepeatingA Catalog.defaultPoint Session.aAfterC))
    Session.preloaded
  refine ⟨hresolve.1, ?_⟩
  rw [hsession.1]
  decide

end Resolver

end Activation
