import Rehearsal.Proofs.Fallible
import Rehearsal.Proofs.Settings.Reading
import Rehearsal.Proofs.Text.LetterCase
import Rehearsal.Proofs.Value.Equality
import Rehearsal.Settings.Loading

/-! The switch for the verification of certificates is read by two readers, one for the variable of the
environment and one for the tree of settings. All else is read alike wherever the switch is written;
the readers differ exactly on the texts that only the one for the tree takes as on. -/

namespace Rehearsal

/-- Settings with the switch in a given position. -/
def Settings.switchedTo (s : Settings) (on : Bool) : Settings :=
  { s with http := { s.http with verifyTls := on } }

namespace Settings

/-- Texts that mean on in a tree and off in the environment. -/
def Misread (t : String) : Prop :=
  Text.lower (Text.trim t) ∈ ["1", "yes", "on"] ∨
    Text.lower (Text.trim t) = "true" ∧ Text.trim t ≠ t

variable {t : String} {on : Bool} {entries moved below above : Section}

theorem saysOn_iff : saysOn t = true ↔ Text.lower t = "true" ∨ Misread t := by
  have hmem : saysOn t = true ↔ Text.lower (Text.trim t) ∈ ["true", "1", "yes", "on"] :=
    List.contains_iff_mem
  rw [hmem, List.mem_cons, Misread]
  by_cases htrim : Text.trim t = t
  · simp [htrim]
  · have hlower : Text.lower t ≠ "true" := fun h =>
      htrim (Text.trim_of_lower h (by decide) (by decide))
    simp [htrim, hlower, or_comm]

theorem Misread.lower_ne (h : Misread t) : Text.lower t ≠ "true" := by
  intro hlower
  have htrim := Text.trim_of_lower hlower (by decide) (by decide)
  rw [Misread, htrim, hlower] at h
  simp at h

theorem readers_agree_iff : (Text.lower t == "true") = saysOn t ↔ ¬Misread t := by
  by_cases hmisread : Misread t
  · have hon : saysOn t = true := saysOn_iff.mpr (.inr hmisread)
    simp [hon, hmisread, hmisread.lower_ne]
  · by_cases hlower : Text.lower t = "true"
    · have hon : saysOn t = true := saysOn_iff.mpr (.inl hlower)
      simp [hon, hmisread, hlower]
    · have hoff : saysOn t = false :=
        Bool.eq_false_iff.mpr fun hon => (saysOn_iff.mp hon).elim hlower hmisread
      simp [hoff, hmisread, hlower]

/-- The second mapping is the first, whose switch can be read, with a text written in its place. -/
structure Switched (t : String) (below above : Section) : Prop where
  http : ∃ entries moved on, sectionOf below "http" = .ok entries ∧
    sectionOf above "http" = .ok moved ∧ flagOf entries "verify_tls" true = .ok on ∧
    Value.fieldIn? "verify_tls" moved = some (.text t) ∧
    ∀ name, name ≠ "verify_tls" → Value.fieldIn? name moved = Value.fieldIn? name entries
  others : ∀ name, name ≠ "http" → Value.fieldIn? name above = Value.fieldIn? name below

theorem sectionOf_overlaid {name key : String} (hsection : sectionOf below name = .ok entries) :
    sectionOf (Value.overlaidEntries below [(.text name, .map [(.text key, .text t)])]) name =
      .ok (Value.overlaidEntries entries [(.text key, .text t)]) := by
  rw [sectionOf] at hsection ⊢
  rw [Value.fieldIn?_overlaid_one, if_pos rfl, Option.getD_some]
  split at hsection
  · rename_i found hfound
    cases hsection
    rw [hfound, Value.overlaid_map]
  · -- what is no mapping is passed over only if it counts as absent
    rename_i hleaf
    split at hsection <;> cases hsection
    rw [Value.overlaid_above hleaf]
    rfl

/-- Laying the text over the switch of a mapping writes it there. -/
theorem switched_overlaid (hsection : sectionOf below "http" = .ok entries)
    (hflag : flagOf entries "verify_tls" true = .ok on) :
    Switched t below (Value.overlaidEntries below
      [(.text "http", .map [(.text "verify_tls", .text t)])]) := by
  refine ⟨⟨entries, Value.overlaidEntries entries [(.text "verify_tls", .text t)], on, hsection,
    sectionOf_overlaid hsection, hflag, ?_, fun name hname => ?_⟩, fun name hname => ?_⟩
  · rw [Value.fieldIn?_overlaid_one, if_pos rfl, Value.overlaid_leaf _ (Value.isLeaf_text t)]
  · rw [Value.fieldIn?_overlaid_one, if_neg (Ne.symm hname)]
  · rw [Value.fieldIn?_overlaid_one, if_neg (Ne.symm hname)]

theorem httpOf_switched (hflag : flagOf entries "verify_tls" true = .ok on)
    (hset : Value.fieldIn? "verify_tls" moved = some (.text t))
    (hkept : ∀ name, name ≠ "verify_tls" →
      Value.fieldIn? name moved = Value.fieldIn? name entries) :
    httpOf moved = (httpOf entries).map fun http => { http with verifyTls := saysOn t } := by
  have hmoved : flagOf moved "verify_tls" true = .ok (saysOn t) := by
    rw [flagOf, hset]
    rfl
  have htext : textOf moved "base_url" "" = textOf entries "base_url" "" := by
    rw [textOf, textOf, hkept _ (by decide)]
  have hheaders : headersOf moved = headersOf entries := by
    rw [headersOf, headersOf, hkept _ (by decide)]
  have htimeout : timeoutOf moved = timeoutOf entries := by
    rw [timeoutOf, timeoutOf, hkept _ (by decide)]
  rw [httpOf, httpOf, hmoved, htext, htimeout, hheaders, hflag, hkept "authentication" (by decide)]
  simp only [map_bind, ok_bind]
  rfl

theorem ofSections_switched (h : Switched t below above) (environment : Option String) :
    ofSections above environment =
      (ofSections below environment).map (·.switchedTo (saysOn t)) := by
  obtain ⟨⟨entries, moved, on, hbelow, habove, hflag, hset, hkept⟩, hothers⟩ := h
  have hsection : ∀ name, name ≠ "http" → sectionOf above name = sectionOf below name := by
    intro name hname
    rw [sectionOf, sectionOf, hothers name hname]
  rw [ofSections, ofSections, hbelow, habove, hsection "broker" (by decide),
    hsection "export" (by decide)]
  simp only [ok_bind, map_bind, httpOf_switched hflag hset hkept]
  generalize saysOn t = on
  cases sectionOf below "broker" with
  | error fault => rfl
  | ok broker =>
    rw [ok_bind, ok_bind]
    cases httpOf entries with
    | error fault => rfl
    | ok http => cases brokerOf broker <;> rfl

variable {m n : Machine} {s : Settings}

theorem overridden_placed (n : Machine) (s : Settings) (source : Option String) :
    overridden n { s with source := source } =
      (overridden n s).map fun s => { s with source := source } := by
  simp only [overridden, map_bind]
  rfl

theorem overridden_unset (hunset : n.setting? "ASSURED_HTTP_VERIFY_TLS" = none) (s : Settings)
    (on : Bool) : overridden n (s.switchedTo on) = (overridden n s).map (·.switchedTo on) := by
  simp only [overridden, hunset, map_bind]
  rfl

theorem overridden_set (ht : t ≠ "")
    (hset : Keyed.get? m.environment "ASSURED_HTTP_VERIFY_TLS" = some t)
    (hunset : n.setting? "ASSURED_HTTP_VERIFY_TLS" = none)
    (hothers : ∀ name, name ≠ "ASSURED_HTTP_VERIFY_TLS" →
      Keyed.get? n.environment name = Keyed.get? m.environment name) (s : Settings) :
    overridden m s = (overridden n s).map (·.switchedTo (Text.lower t == "true")) := by
  have hsetting : m.setting? "ASSURED_HTTP_VERIFY_TLS" = some t := by
    rw [Machine.setting?, hset, Option.filter_some, if_pos (bne_iff_ne.mpr ht)]
  have htimeout : timeoutBy m s.http.timeout = timeoutBy n s.http.timeout := by
    rw [timeoutBy, timeoutBy, Machine.setting?, Machine.setting?, hothers _ (by decide)]
  have htrimmed : ∀ name, name ≠ "ASSURED_HTTP_VERIFY_TLS" → trimmed? m name = trimmed? n name := by
    intro name hname
    rw [trimmed?, trimmed?, hothers name hname]
  simp only [overridden, hsetting, hunset, htimeout, htrimmed "ASSURED_BASE_URL" (by decide),
    htrimmed "ASSURED_BOOTSTRAP_SERVERS" (by decide), map_bind]
  rfl

theorem load_eq {named environment : Option String} {tree : Value} {file : Option FilePath}
    (hread : treeRead m named = .ok (tree, file))
    (hroot : rooted tree (environmentOf m environment) = .ok below) :
    load m named environment = ofSections below (environmentOf m environment) >>= fun made =>
      overridden m { made with source := file.map (·.text) } := by
  rw [load, hread, ok_bind]
  simp only [ofValue, hroot, ok_bind]

/-- Settings are read alike whether a text is given for the switch by the variable of the environment
or written in the tree, but for the place they are from and the switch itself. It is the same exactly
for texts that are not misread; a text that is misread turns the verification off by the variable and
on by the tree. -/
theorem switch_read_alike {named named' environment : Option String} {tree tree' : Value}
    {file file' : Option FilePath} (ht : t ≠ "")
    (hset : Keyed.get? m.environment "ASSURED_HTTP_VERIFY_TLS" = some t)
    (hunset : Keyed.get? n.environment "ASSURED_HTTP_VERIFY_TLS" = none)
    (hothers : ∀ name, name ≠ "ASSURED_HTTP_VERIFY_TLS" →
      Keyed.get? n.environment name = Keyed.get? m.environment name)
    (hread : treeRead m named = .ok (tree, file)) (hread' : treeRead n named' = .ok (tree', file'))
    (hbelow : rooted tree (environmentOf m environment) = .ok below)
    (habove : rooted tree' (environmentOf m environment) = .ok above)
    (hswitched : Switched t below above) :
    load n named' environment = (load m named environment).map (fun s =>
        { s.switchedTo (saysOn t) with source := file'.map (·.text) }) ∧
      ∀ s s', load m named environment = .ok s → load n named' environment = .ok s' →
        s.http.verifyTls = (Text.lower t == "true") ∧ s'.http.verifyTls = saysOn t ∧
        (s.http.verifyTls = s'.http.verifyTls ↔ ¬Misread t) ∧
        (Misread t → s.http.verifyTls = false ∧ s'.http.verifyTls = true) := by
  have henvironment : environmentOf n environment = environmentOf m environment := by
    rw [environmentOf, environmentOf, Machine.setting?, Machine.setting?, hothers _ (by decide)]
  have hnone : n.setting? "ASSURED_HTTP_VERIFY_TLS" = none := by
    rw [Machine.setting?, hunset]
    rfl
  have hload := load_eq hread hbelow
  have hload' := load_eq hread' (henvironment ▸ habove)
  rw [henvironment, ofSections_switched hswitched] at hload'
  cases hmade : ofSections below (environmentOf m environment) with
  | error fault =>
    rw [hmade] at hload hload'
    exact ⟨by rw [hload, hload']; rfl, fun s s' h => by rw [hload] at h; cases h⟩
  | ok made =>
    rw [hmade, ok_bind, overridden_set ht hset hnone hothers, overridden_placed] at hload
    rw [hmade, Except.map, ok_bind, overridden_placed, overridden_unset hnone] at hload'
    have hagree := readers_agree_iff (t := t)
    have hmisread : Misread t → (Text.lower t == "true") = false ∧ saysOn t = true := fun h =>
      ⟨beq_eq_false_iff_ne.mpr h.lower_ne, saysOn_iff.mpr (.inr h)⟩
    rw [hload, hload']
    -- what the readers say of the text is left as it is, or it would be computed here
    generalize (Text.lower t == "true") = off at hagree hmisread ⊢
    generalize saysOn t = on at hagree hmisread ⊢
    cases overridden n made with
    | error fault => exact ⟨rfl, fun s s' h => by cases h⟩
    | ok last =>
      refine ⟨rfl, fun s s' h h' => ?_⟩
      cases h
      cases h'
      exact ⟨rfl, rfl, hagree, hmisread⟩

theorem switch_read_alike_capital :
    let m : Machine := ⟨[], [(["assured.yaml"], "http: \x7bbase_url: 'http://a.test'\x7d")],
      [("ASSURED_HTTP_VERIFY_TLS", "True")]⟩
    let n : Machine :=
      ⟨[], [(["assured.yaml"], "http: \x7bbase_url: 'http://a.test', verify_tls: 'True'\x7d")], []⟩
    ¬Misread "True" ∧ load n none none = (load m none none).map fun s =>
      { s.switchedTo true with source := some "/assured.yaml" } := by
  intro m n
  let below : Section := [(.text "http", .map [(.text "base_url", .text "http://a.test")])]
  let above : Section := [(.text "http",
    .map [(.text "base_url", .text "http://a.test"), (.text "verify_tls", .text "True")])]
  have hread : treeRead m none = .ok (.map below, some ⟨true, ["assured.yaml"]⟩) :=
    toOption_eq_some.mp (by decide +kernel)
  have hread' : treeRead n none = .ok (.map above, some ⟨true, ["assured.yaml"]⟩) :=
    toOption_eq_some.mp (by decide +kernel)
  have hswitched : Switched "True" below above := by
    have hover : Value.overlaidEntries below
        [(.text "http", .map [(.text "verify_tls", .text "True")])] = above := by decide +kernel
    have hsection : sectionOf below "http" = .ok [(.text "base_url", .text "http://a.test")] := rfl
    have hflag : flagOf [(.text "base_url", .text "http://a.test")] "verify_tls" true = .ok true :=
      rfl
    exact hover ▸ switched_overlaid hsection hflag
  have hothers : ∀ name, name ≠ "ASSURED_HTTP_VERIFY_TLS" →
      Keyed.get? n.environment name = Keyed.get? m.environment name := by
    intro name hname
    simp [m, n, Keyed.get?, Ne.symm hname]
  have hagree : ¬Misread "True" := readers_agree_iff.mp (by decide)
  exact ⟨hagree, (switch_read_alike (by decide) (by decide) rfl hothers hread hread' rfl rfl
    hswitched).1⟩

/-- The spelling that turns the verification on in a tree turns it off in the environment. -/
theorem switch_misread_yes :
    let m : Machine := ⟨[], [], [("ASSURED_HTTP_VERIFY_TLS", "yes")]⟩
    let n : Machine := ⟨[], [(["assured.yaml"], "http: \x7bverify_tls: 'yes'\x7d")], []⟩
    (load m none none).toOption.map (·.http.verifyTls) = some false ∧
      (load n none none).toOption.map (·.http.verifyTls) = some true := by
  decide +kernel

end Settings

end Rehearsal
