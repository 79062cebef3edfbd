import FleetLabels.Proofs.ClusterKey
import FleetLabels.Proofs.Judgement

/-!
    Names of reports.

    A report is named for the type of its cluster, its classifier and the name of its cluster, and the
    two dashes that join them may occur in the last two. Reports have one name exactly when they agree
    in all three, or when the name of one's classifier goes on into what is the name of the other's
    cluster (`NamesBlur`). Within a namespace the reports of a pass are told apart by name exactly as
    far as their pairs do not blur. -/

namespace FleetLabels

/-- The name of the second classifier goes on, after that of the first, into what is the name of the
    first cluster. -/
def NamesBlur (c : String) (k : Cluster) (d : String) (l : Cluster) : Prop :=
  k.type = l.type ∧
    ((d = c ++ "-" ∧ k.name = "-" ++ l.name) ∨
      ∃ mid, d = c ++ "--" ++ mid ∧ k.name = mid ++ "--" ++ l.name)

/-- The name of a report is the key of its cluster with the classifier for a namespace, but for the
    mark after the type. -/
theorem reportName_eq_iff_key {c d : String} {k l : Cluster} :
    reportName c k = reportName d l ↔
      ({ k with space := c } : Cluster).key = ({ l with space := d } : Cluster).key := by
  rw [Cluster.key_eq_iff_joined, ← String.toList_inj]
  cases hk : k.type <;> cases hl : l.type <;> simp [reportName, ClusterType.lowerName, hk, hl]

/-- Names of reports are the same exactly when all parts are, or when one pair blurs into the other. -/
theorem reportName_eq_iff {c d : String} {k l : Cluster} :
    reportName c k = reportName d l ↔
      (k.type = l.type ∧ c = d ∧ k.name = l.name) ∨ NamesBlur c k d l ∨ NamesBlur d l c k := by
  rw [reportName_eq_iff_key, Cluster.key_eq_iff, Cluster.same_iff]
  exact Iff.rfl

namespace Engine

variable {e : Engine} {source : Cluster → Source} {cs : List Classifier} {clusters : List Cluster}
  {c d : Classifier} {k l : Cluster}

/-- The report on a classifier and a cluster has the name of the two. -/
theorem report_named (hnames : (cs.map Classifier.name).Nodup)
    (hkeys : (clusters.map Cluster.key).Nodup) (hc : c ∈ cs) (hk : k ∈ clusters) :
    ∃ t, (e.settled source cs clusters).reportsOf c.name k.key = [t] ∧ t.name = reportName c.name k := by
  obtain ⟨r, hr, rfl⟩ := exists_classification e (source k) k hc
  refine ⟨_, reportsOf_eq_judged hnames hkeys hk hr, ?_⟩
  rw [Report.name, StatusReport.Assessed.report, judged_cluster, cluster_of_mem hr, judged_name]

/-- Different pairs in one namespace agree in a report's name only by blurring. -/
theorem reportName_eq_iff_blur (hnames : (cs.map Classifier.name).Nodup)
    (hkeys : (clusters.map Cluster.key).Nodup) (hc : c ∈ cs) (hd : d ∈ cs) (hk : k ∈ clusters)
    (hl : l ∈ clusters) (hpair : (c, k) ≠ (d, l)) (hspace : k.space = l.space) :
    reportName c.name k = reportName d.name l ↔
      NamesBlur c.name k d.name l ∨ NamesBlur d.name l c.name k := by
  rw [reportName_eq_iff, or_iff_right]
  rintro ⟨htype, hclassifier, hcluster⟩
  have hkey : k.key = l.key := by rw [Cluster.key, Cluster.key, htype, hspace, hcluster]
  obtain rfl := eq_of_map_nodup hnames hc hd hclassifier
  obtain rfl := eq_of_map_nodup hkeys hk hl hkey
  exact hpair rfl

/-- Two reports of a pass on different pairs in one namespace have one name exactly when one of the
    pairs blurs into the other. -/
theorem reports_told_apart_unless_blurred (e : Engine) (source : Cluster → Source)
    (cs : List Classifier) (clusters : List Cluster) (hnames : (cs.map Classifier.name).Nodup)
    (hkeys : (clusters.map Cluster.key).Nodup) :
    (∀ c d k l, reportName c k = reportName d l ↔
      (k.type = l.type ∧ c = d ∧ k.name = l.name) ∨ NamesBlur c k d l ∨ NamesBlur d l c k) ∧
    ∃ p, e.run source cs clusters = .ok p ∧
      ∀ c ∈ cs, ∀ k ∈ clusters, ∀ d ∈ cs, ∀ l ∈ clusters, (c, k) ≠ (d, l) → k.space = l.space →
        ∃ t u, p.reportsOf c.name k.key = [t] ∧ p.reportsOf d.name l.key = [u] ∧
          (t.name = u.name ↔ NamesBlur c.name k d.name l ∨ NamesBlur d.name l c.name k) := by
  refine ⟨fun c d k l => reportName_eq_iff, _, run_eq_settled hnames hkeys, ?_⟩
  intro c hc k hk d hd l hl hpair hspace
  obtain ⟨t, ht, htname⟩ := report_named hnames hkeys hc hk
  obtain ⟨u, hu, huname⟩ := report_named hnames hkeys hd hl
  refine ⟨t, u, ht, hu, ?_⟩
  rw [htname, huname]
  exact reportName_eq_iff_blur hnames hkeys hc hd hk hl hpair hspace

end Engine

/-! ### Dashes in names of classifiers and clusters -/

namespace Sample

def prod : Classifier := ⟨"prod", [], [], [], none, none, List.nodup_nil⟩

/-- Its name goes on after that of `prod`. -/
def prodEu : Classifier := ⟨"prod--eu", [], [], [], none, none, List.nodup_nil⟩

def west : Cluster := ⟨"default", "west", .capi, Table.empty⟩

/-- Its name begins as that of `prodEu` ends. -/
def euWest : Cluster := ⟨"default", "eu--west", .capi, Table.empty⟩

end Sample

open Sample in
/-- Two reports on different classifiers and different clusters of one namespace have one name. -/
theorem prod_on_euWest_taken_for_prodEu_on_west :
    prod ≠ prodEu ∧ euWest.key ≠ west.key ∧ euWest.space = west.space ∧
      ∃ p t u, engine.run (fun _ => empty) [prod, prodEu] [euWest, west] = .ok p ∧
        p.reportsOf "prod" euWest.key = [t] ∧ p.reportsOf "prod--eu" west.key = [u] ∧
        t.name = "capi--prod--eu--west" ∧ u.name = "capi--prod--eu--west" := by
  have hnames : ([prod, prodEu].map Classifier.name).Nodup := by decide
  have hkeys : ([euWest, west].map Cluster.key).Nodup := by decide
  obtain ⟨t, ht, htname⟩ := @Engine.report_named engine (fun _ => empty) _ _ prod euWest hnames hkeys
    (by decide) (by decide)
  obtain ⟨u, hu, huname⟩ := @Engine.report_named engine (fun _ => empty) _ _ prodEu west hnames hkeys
    (by decide) (by decide)
  exact ⟨by decide, by decide, rfl, _, t, u, Engine.run_eq_settled hnames hkeys, ht, hu,
    htname.trans (by decide), huname.trans (by decide)⟩

open Sample in
/-- One classifier on the two clusters, and the two classifiers on one of them, are told apart. -/
theorem reports_on_west_told_apart :
    ∃ p t u v, engine.run (fun _ => empty) [prod, prodEu] [euWest, west] = .ok p ∧
      p.reportsOf "prod" euWest.key = [t] ∧ p.reportsOf "prod" west.key = [u] ∧
      p.reportsOf "prod--eu" west.key = [v] ∧ t.name ≠ u.name ∧ u.name ≠ v.name := by
  obtain ⟨hiff, p, hrun, hp⟩ := Engine.reports_told_apart_unless_blurred engine (fun _ => empty)
    [prod, prodEu] [euWest, west] (by decide) (by decide)
  have hclear : ∀ c d k l, reportName c k ≠ reportName d l →
      ¬ (NamesBlur c k d l ∨ NamesBlur d l c k) := by
    intro c d k l hne hblur
    exact hne ((hiff c d k l).mpr (.inr hblur))
  obtain ⟨t, u, ht, hu, htu⟩ :=
    hp prod (by decide) euWest (by decide) prod (by decide) west (by decide) (by decide) rfl
  obtain ⟨u', v, hu', hv, huv⟩ :=
    hp prod (by decide) west (by decide) prodEu (by decide) west (by decide) (by decide) rfl
  obtain rfl : u = u' := by simpa using hu.symm.trans hu'
  refine ⟨p, t, u, v, hrun, ht, hu, hv, fun h => ?_, fun h => ?_⟩
  · exact hclear "prod" "prod" euWest west (by decide) (htu.mp h)
  · exact hclear "prod" "prod--eu" west west (by decide) (huv.mp h)

end FleetLabels
