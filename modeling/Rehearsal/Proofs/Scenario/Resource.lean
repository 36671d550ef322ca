import Rehearsal.Proofs.Scenario.Construction
import Rehearsal.Proofs.Url.Under

/-! Steps for resources that are named relative to the base address. Such a step goes to the site
of the base address exactly if what is left of the resource without its leading slashes names no
other site, and it goes below the path of the base address exactly if that is a plain path. -/

namespace Rehearsal.Engine

open Url

variable {e e' : Engine} {path : String} {base : Reference}

theorem resourceUrl_ok {url : String} (hrelative : isAbsolute path.toList = false)
    (h : e.resourceUrl path = .ok url) : under e.settings.http.baseUrl path = .ok url := by
  unfold resourceUrl at h
  cases hflaw : referenceFlaw? path.toList with
  | some why => simp only [hflaw, reduceCtorEq] at h
  | none =>
    simp only [hflaw, hrelative, Bool.false_eq_true, if_false] at h
    by_cases hbase : e.settings.http.baseUrl = ""
    · simp only [hbase, if_true, reduceCtorEq] at h
    · rw [if_neg hbase] at h
      exact mapError_eq_ok.mp h

theorem build_url {draft : HttpDraft} {step : HttpStep} (h : draft.build = .ok step) :
    step.url = draft.url.display := by
  rw [HttpDraft.build] at h
  split_ifs at h
  obtain ⟨timeout, -, h⟩ := bind_eq_ok.mp h
  cases h
  rfl

theorem apiResource_url (h : e.construct (.apiResource path) = .ok e') :
    ∃ step, e'.current = some (.http step) ∧ e.resourceUrl path = .ok step.url := by
  obtain ⟨_, -, h⟩ := bind_eq_ok.mp h
  by_cases hp : path = ""
  · rw [if_pos hp] at h
    cases h
  rw [if_neg hp] at h
  obtain ⟨url, hurl, h⟩ := bind_eq_ok.mp h
  obtain ⟨step, hstep, rfl⟩ := map_eq_ok.mp h
  obtain ⟨made, hmade, rfl⟩ := map_eq_ok.mp hstep
  have hmade : made.url = url := build_url hmade
  exact ⟨made, rfl, hmade.symm ▸ hurl⟩

/-- A step for a relative resource goes to the site of the base address exactly if the resource
without its leading slashes names no other one. Below a bare base address its path is that of the
base, a slash and the resource exactly if both are plain. -/
theorem resource_under_base
    (hbase : Reference.parse [] e.settings.http.baseUrl.toList = base) (hweb : IsWeb base.scheme)
    (hhost : base.authority ≠ []) (hrelative : isAbsolute path.toList = false)
    (h : e.construct (.apiResource path) = .ok e') :
    ∃ step, e'.current = some (.http step) ∧
      ((Reference.parse [] step.url.toList).SameSite base ↔
        (Reference.parse [] (path.toList.dropWhile (· == '/'))).StaysOn base) ∧
      (Bare e.settings.http.baseUrl.toList →
        ((Reference.parse [] step.url.toList).fullPath =
            trimmed base.fullPath ++ '/' :: path.toList.dropWhile (· == '/') ↔
          (path.toList.dropWhile (· == '/') = [] ∨ PlainDirectory (trimmed base.fullPath)) ∧
            PlainPath (path.toList.dropWhile (· == '/')))) := by
  obtain ⟨step, hcurrent, hurl⟩ := apiResource_url h
  have hunder := resourceUrl_ok hrelative hurl
  exact ⟨step, hcurrent, under_site hbase hweb hhost hunder, under_path hbase hweb hhost hunder⟩

theorem exists_constructed {c : Construction} (h : (e.construct c).toOption.isSome = true) :
    ∃ e', e.construct c = .ok e' := exists_eq_ok h

/-- A resource with slashes before it, below a base address that ends with one. -/
theorem resource_under_base_plain :
    let e : Engine := { settings := { http := { baseUrl := "http://api.test:8080/v1/" } } }
    let base : Reference := Reference.parse [] "http://api.test:8080/v1/".toList
    ∃ e' step, e.construct (.apiResource "//users/7;raw") = .ok e' ∧
      e'.current = some (.http step) ∧ (Reference.parse [] step.url.toList).SameSite base ∧
      (Reference.parse [] step.url.toList).fullPath = "/v1/users/7;raw".toList := by
  intro e base
  obtain ⟨e', hmade⟩ : ∃ e', e.construct (.apiResource "//users/7;raw") = .ok e' :=
    exists_constructed (by decide +kernel)
  obtain ⟨step, hcurrent, hsite, hpath⟩ :=
    resource_under_base rfl (.inl (by decide +kernel)) (by decide +kernel) (by decide +kernel) hmade
  refine ⟨e', step, hmade, hcurrent, hsite.mpr (by decide +kernel), ?_⟩
  exact ((hpath (by decide +kernel)).mpr (by decide +kernel)).trans (by decide +kernel)

/-- A resource that has no scheme of its own, but has one without its slash, leaves the base. -/
theorem resource_leaves_base :
    let e : Engine := { settings := { http := { baseUrl := "http://api.test/v1" } } }
    let base : Reference := Reference.parse [] "http://api.test/v1".toList
    isAbsolute "/http://evil.test/x".toList = false ∧
      ∃ e' step, e.construct (.apiResource "/http://evil.test/x") = .ok e' ∧
        e'.current = some (.http step) ∧ step.url = "http://evil.test/x" ∧
        ¬(Reference.parse [] step.url.toList).SameSite base := by
  intro e base
  obtain ⟨e', hmade⟩ : ∃ e', e.construct (.apiResource "/http://evil.test/x") = .ok e' :=
    exists_constructed (by decide +kernel)
  obtain ⟨step, hcurrent, hresource⟩ := apiResource_url hmade
  have hurl : (e.resourceUrl "/http://evil.test/x").toOption = some "http://evil.test/x" := by
    decide +kernel
  rw [hresource] at hurl
  have hurl : step.url = "http://evil.test/x" := Option.some.inj hurl
  exact ⟨by decide +kernel, e', step, hmade, hcurrent, hurl, by rw [hurl]; decide +kernel⟩

end Rehearsal.Engine
