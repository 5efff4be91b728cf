import CredentialBench.Proofs.Workspace.Outline
import CredentialBench.Text.Split

/-!
# The names in certificates

The name in a certificate joins an instance, a service, a host and a domain with points, as if each
of the first three were one label. A name in a scenario may itself hold points, so the labels of the
joined name do not say where one name ends and the next begins: two services of a scenario that
passes its check can have certificates of one name (`Scenario.dotted_sameName`).

What the name tells is the labels (`Identity.dnsName_eq_iff`), and with the numbers of labels in the
service and in the host it tells the service (`Scenario.dnsName_tells`). It does so alone if neither
may hold a point (`Scenario.Valid.dnsName_inj`).
-/

namespace CredentialBench.Workspace

/-- The labels of a name: its parts between points. -/
def labels (name : String) : List (List Char) := Text.split '.' name.toList

theorem labels_inj {a b : String} : labels a = labels b ↔ a = b := by
  rw [labels, labels, Text.split_inj, String.toList_inj]

/-- A name without points is one label. -/
theorem labels_of_notMem {name : String} (h : '.' ∉ name.toList) : labels name = [name.toList] :=
  Text.split_of_notMem '.' h

namespace Identity

variable {i j : Identity}

/-- The labels before the domain in the name of a certificate. -/
def labels (i : Identity) : List (List Char) :=
  Workspace.labels i.instanceId ++ (Workspace.labels i.service ++ Workspace.labels i.hostname)

theorem labels_dnsName (i : Identity) :
    Workspace.labels i.dnsName = i.labels ++ Workspace.labels i.domain := by
  have h : i.dnsName.toList = i.instanceId.toList ++ '.' :: (i.service.toList ++
      '.' :: (i.hostname.toList ++ '.' :: i.domain.toList)) := by
    simp [dnsName]
  simp only [Workspace.labels, labels, h, Text.split_append_cons, List.append_assoc]

/-- **The name in a certificate tells the labels**, and nothing else. -/
theorem dnsName_eq_iff (h : i.domain = j.domain) :
    i.dnsName = j.dnsName ↔ i.labels = j.labels := by
  rw [← labels_inj, labels_dnsName, labels_dnsName, h, List.append_left_inj]

/-- Where the labels are divided is all that they leave open. -/
theorem eq_of_labels (h : i.labels = j.labels)
    (hservice : (Workspace.labels i.service).length = (Workspace.labels j.service).length)
    (hhost : (Workspace.labels i.hostname).length = (Workspace.labels j.hostname).length) :
    i.instanceId = j.instanceId ∧ i.service = j.service ∧ i.hostname = j.hostname := by
  obtain ⟨hinstance, hrest⟩ := List.append_inj' h (by simp [hservice, hhost])
  obtain ⟨hservice, hhost⟩ := List.append_inj' hrest hhost
  exact ⟨labels_inj.1 hinstance, labels_inj.1 hservice, labels_inj.1 hhost⟩

end Identity

namespace Scenario

variable {s : Scenario} {h h' : Host} {x x' : Service}

/-- With the numbers of labels the name tells the service and its host. -/
theorem Valid.eq_of_dnsName (hs : s.Valid) {domain : String} (hh : h ∈ s.hosts)
    (hx : x ∈ h.services) (hh' : h' ∈ s.hosts) (hx' : x' ∈ h'.services)
    (hname : (x.identity h.id domain).dnsName = (x'.identity h'.id domain).dnsName)
    (hservice : (labels x.name).length = (labels x'.name).length)
    (hhost : (labels h.id).length = (labels h'.id).length) : h = h' ∧ x = x' := by
  have hlabels : (x.identity h.id domain).labels = (x'.identity h'.id domain).labels :=
    (Identity.dnsName_eq_iff (by rfl)).1 hname
  obtain ⟨-, hservice, hhost⟩ := Identity.eq_of_labels hlabels hservice hhost
  obtain rfl := hs.host_unique hh hh' hhost
  exact ⟨rfl, List.inj_on_of_nodup_map (hs.services h hh) hx hx' hservice⟩

/-- Without points in hosts and services the name alone tells them. -/
theorem Valid.dnsName_inj (hs : s.Valid) {domain : String}
    (hhosts : ∀ h ∈ s.hosts, '.' ∉ h.id.toList)
    (hservices : ∀ h ∈ s.hosts, ∀ x ∈ h.services, '.' ∉ x.name.toList) (hh : h ∈ s.hosts)
    (hx : x ∈ h.services) (hh' : h' ∈ s.hosts) (hx' : x' ∈ h'.services) :
    (x.identity h.id domain).dnsName = (x'.identity h'.id domain).dnsName ↔ h = h' ∧ x = x' := by
  constructor
  · intro hname
    refine hs.eq_of_dnsName hh hx hh' hx' hname ?_ ?_
    · rw [labels_of_notMem (hservices h hh x hx), labels_of_notMem (hservices h' hh' x' hx')]
      rfl
    · rw [labels_of_notMem (hhosts h hh), labels_of_notMem (hhosts h' hh')]
      rfl
  · rintro ⟨rfl, rfl⟩
    rfl

/-- **What the names in certificates tell.** In a scenario that passes its check, two services have
certificates of one name just if their instances, names and hosts give the same labels in a row; and
if in addition their names have as many labels, and their hosts do, then they are one service. -/
theorem dnsName_tells (hs : s.check = .ok ()) (domain : String) (hh : h ∈ s.hosts)
    (hx : x ∈ h.services) (hh' : h' ∈ s.hosts) (hx' : x' ∈ h'.services) :
    ((x.identity h.id domain).dnsName = (x'.identity h'.id domain).dnsName ↔
        (x.identity h.id domain).labels = (x'.identity h'.id domain).labels) ∧
      ((x.identity h.id domain).dnsName = (x'.identity h'.id domain).dnsName ∧
          (labels x.name).length = (labels x'.name).length ∧
            (labels h.id).length = (labels h'.id).length ↔ h = h' ∧ x = x') := by
  refine ⟨Identity.dnsName_eq_iff (by rfl), ?_, ?_⟩
  · rintro ⟨hname, hservice, hhost⟩
    exact (valid_of_check hs).eq_of_dnsName hh hx hh' hx' hname hservice hhost
  · rintro ⟨rfl, rfl⟩
    exact ⟨rfl, rfl, rfl⟩

/-- Two services whose names and instances divide the same labels in two ways. -/
def dotted : Scenario :=
  ⟨"s", [⟨"h", [⟨"b.c", "daemon", "1", none⟩, ⟨"c", "daemon", "1.b", none⟩]⟩]⟩

/-- Both services of the scenario are told by the name with the numbers of labels. -/
theorem dnsName_tells_dotted :
    dotted.check = .ok () ∧ ∀ h ∈ dotted.hosts, ∀ x ∈ h.services, ∀ x' ∈ h.services,
      (x.identity h.id "trusted.domain").dnsName = (x'.identity h.id "trusted.domain").dnsName →
        (labels x.name).length = (labels x'.name).length → x = x' := by
  have hcheck : dotted.check = .ok () := by decide
  refine ⟨hcheck, fun h hh x hx x' hx' hname hlength => ?_⟩
  exact ((dnsName_tells hcheck "trusted.domain" hh hx hh hx').2.1 ⟨hname, hlength, rfl⟩).2

/-- The two services pass the check, and their certificates have one name. -/
theorem dotted_sameName :
    dotted.check = .ok () ∧ ∃ h ∈ dotted.hosts, ∃ x ∈ h.services, ∃ x' ∈ h.services,
      x.name ≠ x'.name ∧
        (x.identity h.id "trusted.domain").dnsName = "1.b.c.h.trusted.domain" ∧
          (x'.identity h.id "trusted.domain").dnsName = "1.b.c.h.trusted.domain" := by
  decide

end Scenario

end CredentialBench.Workspace
