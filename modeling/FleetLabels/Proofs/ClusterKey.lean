import FleetLabels.Proofs.Assembly
import FleetLabels.Proofs.Inventory

/-!
    Keys of clusters.

    A key joins the type, the namespace and the name of a cluster, and the two dashes between
    namespace and name may occur in either of them. Two clusters have one key exactly when they are the
    same, or when the namespace of one goes on into what is the name of the other
    (`Cluster.Blurs`). Among clusters that do not blur, whatever is kept by key is kept by cluster. -/

namespace FleetLabels

/-! ### Texts joined by two dashes -/

/-- Of two joined texts, the second has a first part that goes on after that of the first, by one of the
    two dashes or by both and more. -/
def GoesOn (s n t m : List Char) : Prop :=
  (t = s ++ ['-'] ∧ n = '-' :: m) ∨ ∃ mid, t = s ++ '-' :: '-' :: mid ∧ n = mid ++ '-' :: '-' :: m

theorem goesOn_of_dashes_eq {s n m rest : List Char} (h : '-' :: '-' :: n = rest ++ '-' :: '-' :: m) :
    rest = [] ∧ n = m ∨ GoesOn s n (s ++ rest) m := by
  rcases rest with _ | ⟨c, _ | ⟨d, mid⟩⟩
  · exact .inl ⟨rfl, by simpa using h⟩
  · simp only [List.cons_append, List.nil_append, List.cons.injEq, true_and] at h
    obtain ⟨rfl, rfl⟩ := h
    exact .inr (.inl ⟨rfl, rfl⟩)
  · simp only [List.cons_append, List.cons.injEq] at h
    obtain ⟨rfl, rfl, rfl⟩ := h
    exact .inr (.inr ⟨mid, rfl, rfl⟩)

theorem joined_eq_of_goesOn {s n t m : List Char} (h : GoesOn s n t m) :
    s ++ '-' :: '-' :: n = t ++ '-' :: '-' :: m := by
  rcases h with ⟨rfl, rfl⟩ | ⟨mid, rfl, rfl⟩ <;> simp

/-- Joined texts read the same exactly when their parts are the same or one goes on after the other. -/
theorem joined_eq_iff {s n t m : List Char} :
    s ++ '-' :: '-' :: n = t ++ '-' :: '-' :: m ↔
      s = t ∧ n = m ∨ GoesOn s n t m ∨ GoesOn t m s n := by
  constructor
  · intro h
    rcases List.append_eq_append_iff.mp h with ⟨rest, rfl, hrest⟩ | ⟨rest, rfl, hrest⟩
    · rcases goesOn_of_dashes_eq hrest with ⟨rfl, rfl⟩ | hon
      · exact .inl ⟨(List.append_nil s).symm, rfl⟩
      · exact .inr (.inl hon)
    · rcases goesOn_of_dashes_eq hrest with ⟨rfl, rfl⟩ | hon
      · exact .inl ⟨List.append_nil t, rfl⟩
      · exact .inr (.inr hon)
  · rintro (⟨rfl, rfl⟩ | hon | hon)
    · rfl
    · exact joined_eq_of_goesOn hon
    · exact (joined_eq_of_goesOn hon).symm

namespace Cluster

/-- The namespace of `b` goes on, after that of `a`, into what is the name of `a`. -/
def Blurs (a b : Cluster) : Prop :=
  a.type = b.type ∧
    ((b.space = a.space ++ "-" ∧ a.name = "-" ++ b.name) ∨
      ∃ mid, b.space = a.space ++ "--" ++ mid ∧ a.name = mid ++ "--" ++ b.name)

theorem same_iff {a b : Cluster} :
    a.same b = true ↔ a.type = b.type ∧ a.space = b.space ∧ a.name = b.name := by
  rw [same, beq_iff_eq, sortKey, sortKey, Prod.mk.injEq, Prod.mk.injEq]
  exact and_congr_left fun _ => ⟨ClusterType.name_injective, congrArg ClusterType.name⟩

theorem toList_key (a : Cluster) : a.key.toList =
    a.type.lowerName.toList ++ ':' :: (a.space.toList ++ '-' :: '-' :: a.name.toList) := by
  simp [key]

theorem key_eq_iff_joined {a b : Cluster} : a.key = b.key ↔ a.type = b.type ∧
    a.space.toList ++ '-' :: '-' :: a.name.toList = b.space.toList ++ '-' :: '-' :: b.name.toList := by
  rw [← String.toList_inj, toList_key, toList_key]
  cases a.type <;> cases b.type <;> simp [ClusterType.lowerName]

theorem blurs_iff {a b : Cluster} : a.Blurs b ↔ a.type = b.type ∧
    GoesOn a.space.toList a.name.toList b.space.toList b.name.toList := by
  refine and_congr_right fun _ => or_congr ?_ ⟨?_, ?_⟩
  · rw [← String.toList_inj, ← String.toList_inj]
    simp
  · rintro ⟨mid, hspace, hname⟩
    exact ⟨mid.toList, by rw [hspace]; simp, by rw [hname]; simp⟩
  · rintro ⟨mid, hspace, hname⟩
    refine ⟨String.ofList mid, ?_, ?_⟩ <;> rw [← String.toList_inj]
    · simpa using hspace
    · simpa using hname

theorem not_blurs_self (a : Cluster) : ¬ a.Blurs a := by
  rw [blurs_iff]
  rintro ⟨-, ⟨hspace, -⟩ | ⟨mid, hspace, -⟩⟩
  · simpa using congrArg List.length hspace
  · have := congrArg List.length hspace
    simp only [List.length_append, List.length_cons] at this
    omega

/-- Clusters have one key exactly when they are the same or one of them blurs into the other. -/
theorem key_eq_iff {a b : Cluster} :
    a.key = b.key ↔ a.same b = true ∨ a.Blurs b ∨ b.Blurs a := by
  rw [key_eq_iff_joined, same_iff, blurs_iff, blurs_iff, joined_eq_iff, String.toList_inj,
    String.toList_inj]
  constructor
  · rintro ⟨htype, hsame | hblurs | hblurs⟩
    · exact .inl ⟨htype, hsame⟩
    · exact .inr (.inl ⟨htype, hblurs⟩)
    · exact .inr (.inr ⟨htype.symm, hblurs⟩)
  · rintro (⟨htype, hsame⟩ | ⟨htype, hblurs⟩ | ⟨htype, hblurs⟩)
    · exact ⟨htype, .inl hsame⟩
    · exact ⟨htype, .inr (.inl hblurs)⟩
    · exact ⟨htype.symm, .inr (.inr hblurs)⟩

/-- A cluster that blurs into none of some clusters, and into which none of them blurs. -/
def Clear (k : Cluster) (clusters : List Cluster) : Prop :=
  ∀ a ∈ clusters, ¬ a.Blurs k ∧ ¬ k.Blurs a

theorem Clear.key_eq_iff {k : Cluster} {clusters : List Cluster} (h : k.Clear clusters)
    {a : Cluster} (ha : a ∈ clusters) : a.key = k.key ↔ a.same k = true := by
  obtain ⟨hak, hka⟩ := h a ha
  rw [Cluster.key_eq_iff]
  simp [hak, hka]

/-- Clusters of different keys are clear of each other. -/
theorem Clear.of_nodup {k : Cluster} {clusters : List Cluster}
    (h : (clusters.map Cluster.key).Nodup) (hk : k ∈ clusters) : k.Clear clusters := by
  intro a ha
  by_cases hak : a = k
  · rw [hak]
    exact ⟨not_blurs_self k, not_blurs_self k⟩
  · have hkey : a.key ≠ k.key := fun heq => hak (eq_of_map_nodup h ha hk heq)
    rw [Ne, Cluster.key_eq_iff] at hkey
    exact ⟨fun hblurs => hkey (.inr (.inl hblurs)), fun hblurs => hkey (.inr (.inr hblurs))⟩

/-! ### What is kept by key -/

variable {δ : Type}

/-- What is given for clusters, by their keys. -/
def keyed (given : List (Cluster × δ)) : List (String × δ) := given.map fun g => (g.1.key, g.2)

theorem filter_keyed {k : Cluster} {given : List (Cluster × δ)} (h : k.Clear (given.map (·.1))) :
    ((keyed given).filter fun g => g.1 = k.key) = keyed (given.filter fun g => g.1.same k) := by
  rw [keyed, List.filter_map, keyed]
  refine congrArg _ (List.filter_congr fun g hg => ?_)
  rw [Bool.eq_iff_iff, Function.comp_apply, decide_eq_true_iff]
  exact h.key_eq_iff (List.mem_map_of_mem hg)

end Cluster

/-- In every scope, an inventory lists for a cluster what is read from what was given for it. -/
def Inventory.Gives {δ ε : Type} (inv : Inventory) (read : δ → Except ε (List Resource))
    (given : List (Cluster × δ)) (k : Cluster) : Prop :=
  ∃ rss, ((given.filter fun g => g.1.same k).mapM fun g => read g.2) = .ok rss ∧
    ∀ s, inv.list k s = rss.flatten.filter fun r => r.scope == s

namespace Inventory

variable {δ ε : Type} {inv : Inventory} {k : Cluster}

theorem gives_of_all {read : δ → Except ε (List Resource)} {given : List (Cluster × δ)}
    (hclear : k.Clear (given.map (·.1)))
    (h : ∃ rss, (((Cluster.keyed given).filter fun g => g.1 = k.key).mapM fun g => read g.2) =
      .ok rss ∧ inv.all k = rss.flatten) : inv.Gives read given k := by
  obtain ⟨rss, hread, hall⟩ := h
  rw [Cluster.filter_keyed hclear, Cluster.keyed, List.mapM_map] at hread
  refine ⟨rss, hread, fun s => ?_⟩
  rw [list, hall]

/-- A resource that is added for one cluster changes nothing for another. -/
theorem list_of_add {a : Cluster} {d : Datum} {next : Inventory} (hkey : a.key ≠ k.key)
    (h : add a.key inv d = .ok next) (s : Scope) : next.list k s = inv.list k s := by
  rw [add] at h
  cases hread : Resource.ofManifest d with
  | error r => rw [hread] at h; cases h
  | ok r =>
    rw [hread] at h
    cases h
    rw [list, all_addResource, if_neg hkey, List.append_nil, list]

end Inventory

theorem VersionTable.versionOf_keyed {k : Cluster} {known : List (Cluster × Datum)}
    (hclear : k.Clear (known.map (·.1))) :
    VersionTable.versionOf (Table.ofList (Cluster.keyed known)) k =
      match (known.filter fun g => g.1.same k).getLast? with
      | some g => .ok g.2
      | none => .error ("no version reported for cluster " ++ k.key) := by
  rw [versionOf, Table.get?_ofList, Cluster.filter_keyed hclear, Cluster.keyed, List.getLast?_map]
  cases (known.filter fun g => g.1.same k).getLast? <;> rfl

namespace Engine

variable {e : Engine} {source : Cluster → Source} {cs : List Classifier} {clusters : List Cluster}

theorem nodup_keys_iff : (clusters.map Cluster.key).Nodup ↔
    clusters.Pairwise fun a b => a.same b = false ∧ ¬ a.Blurs b ∧ ¬ b.Blurs a := by
  rw [List.Nodup, List.pairwise_map]
  refine List.Pairwise.iff fun a b => ?_
  rw [Ne, Cluster.key_eq_iff, not_or, not_or, Bool.not_eq_true]

/-- Clusters are refused as repeated exactly when two of them are the same or blur. -/
theorem run_refuses_clusters_iff : (∃ keys, e.run source cs clusters = .error (.clusters keys)) ↔
    (cs.map Classifier.name).Nodup ∧
      ¬ clusters.Pairwise fun a b => a.same b = false ∧ ¬ a.Blurs b ∧ ¬ b.Blurs a := by
  rw [← nodup_keys_iff]
  rcases run_cases e source cs clusters with ⟨hnames, _, hrun⟩ | ⟨hnames, hkeys, keys, hrun⟩ |
    ⟨hnames, hkeys, hrun⟩
  · simp [hrun, hnames]
  · simp [hrun, hnames, hkeys]
  · simp [hrun, hkeys]

section Made

variable {p : PassResult} {k : Cluster} (hrun : e.run source cs clusters = .ok p)

include hrun

/-- Whatever keys clusters have, a pass that is made holds for each of them its own arbitration. -/
theorem arbitration_of_run (hk : k ∈ clusters) :
    ∃ o, e.evaluateCluster (source k) cs k = .ok o ∧
      p.arbitrations.get? k.key = some o.arbitration ∧ o.arbitration.cluster = k := by
  obtain ⟨hnames, hkeys, rfl⟩ := settled_of_run hrun
  exact ⟨_, evaluateCluster_eq_ok hnames, arbitration_of_cluster hkeys hk, rfl⟩

/-- A cluster that is clear of those of a pass finds nothing but its own arbitration there. -/
theorem same_of_arbitration (hclear : k.Clear clusters) {a : Arbitration}
    (ha : p.arbitrations.get? k.key = some a) : a.cluster.same k = true := by
  obtain ⟨-, -, hp⟩ := settled_of_run hrun
  by_cases hkey : k.key ∈ clusters.map Cluster.key
  · obtain ⟨c, hc, hck⟩ := List.mem_map.mp hkey
    obtain ⟨o, -, hget, hcluster⟩ := arbitration_of_run hrun hc
    rw [hck, ha] at hget
    rw [Option.some.inj hget, hcluster]
    exact (hclear.key_eq_iff hc).mp hck
  · have hnone : p.arbitrations.get? k.key = none := by
      rw [hp]
      refine Table.get?_of_notMem fun hmem => hkey ?_
      rw [List.map_map] at hmem
      exact ((List.mergeSort_perm clusters _).map Cluster.key).subset hmem
    rw [hnone] at ha
    cases ha

end Made

end Engine

/-- Two clusters have one key exactly when they are the same or one blurs into the other, and this
    is when a pass refuses them as repeated. To a cluster that is clear of the others, inventories and
    versions kept by key give its own, and a pass that is made gives to each its own labels. -/
theorem Cluster.key_tells_apart_unless_blurred (e : Engine) (source : Cluster → Source)
    (cs : List Classifier) (clusters : List Cluster) :
    (∀ a b : Cluster, a.key = b.key ↔
      (a.type = b.type ∧ a.space = b.space ∧ a.name = b.name) ∨ a.Blurs b ∨ b.Blurs a) ∧
    ((∃ keys, e.run source cs clusters = .error (.clusters keys)) ↔
      (cs.map Classifier.name).Nodup ∧
        ¬ clusters.Pairwise fun a b => a.same b = false ∧ ¬ a.Blurs b ∧ ¬ b.Blurs a) ∧
    (∀ p, e.run source cs clusters = .ok p →
      (∀ k ∈ clusters, ∃ o, e.evaluateCluster (source k) cs k = .ok o ∧
        p.arbitrations.get? k.key = some o.arbitration ∧ o.arbitration.cluster = k) ∧
      ∀ k a, k.Clear clusters → p.arbitrations.get? k.key = some a → a.cluster.same k = true) ∧
    (∀ k given inv, k.Clear (given.map (·.1)) → Inventory.ofManifests (keyed given) = .ok inv →
      inv.Gives Inventory.described given k) ∧
    (∀ k given inv, k.Clear (given.map (·.1)) → Inventory.ofStreams (keyed given) = .ok inv →
      inv.Gives Inventory.streamed given k) ∧
    (∀ k a inv d next, k.Clear [a] → a.same k = false → Inventory.add a.key inv d = .ok next →
      ∀ s, next.list k s = inv.list k s) ∧
    ∀ k known, k.Clear (known.map (·.1)) →
      VersionTable.versionOf (Table.ofList (keyed known)) k =
        match (known.filter fun g => g.1.same k).getLast? with
        | some g => .ok g.2
        | none => .error ("no version reported for cluster " ++ k.key) := by
  refine ⟨fun a b => ?_, Engine.run_refuses_clusters_iff, ?_, ?_, ?_, ?_, ?_⟩
  · rw [key_eq_iff, same_iff]
  · intro p hrun
    refine ⟨fun k hk => Engine.arbitration_of_run hrun hk, fun k a hclear ha => ?_⟩
    exact Engine.same_of_arbitration hrun hclear ha
  · intro k given inv hclear hfilled
    exact Inventory.gives_of_all hclear (Inventory.all_ofManifests hfilled k)
  · intro k given inv hclear hfilled
    exact Inventory.gives_of_all hclear (Inventory.all_ofStreams hfilled k)
  · intro k a inv d next hclear hother hadd
    refine Inventory.list_of_add (fun hkey => ?_) hadd
    rw [hclear.key_eq_iff List.mem_cons_self, hother] at hkey
    cases hkey
  · intro k known hclear
    exact VersionTable.versionOf_keyed hclear

/-! ### Dashes in names -/

namespace Sample

def flat : Cluster := ⟨"a", "b--c", .capi, Table.empty⟩

/-- Has the key of `flat`. -/
def deep : Cluster := ⟨"a--b", "c", .capi, Table.empty⟩

def hyphenated : Cluster := ⟨"a", "b-c", .capi, Table.empty⟩

/-- Differs from `hyphenated` in which of the single dashes is part of the namespace. -/
def branch : Cluster := ⟨"a-b", "c", .capi, Table.empty⟩

def podManifest : Datum :=
  .mapping [(.text "apiVersion", .scalar (.text "v1")), (.text "kind", .scalar (.text "Pod"))]

end Sample

open Sample in
/-- Of two clusters whose namespaces and names have two dashes in them, one is taken for the other. -/
theorem flat_taken_for_deep :
    flat.key = deep.key ∧ flat.same deep = false ∧
      (∃ keys, engine.run (fun _ => empty) [] [flat, deep] = .error (.clusters keys)) ∧
      (∃ inv r, Inventory.ofManifests (Cluster.keyed [(flat, .list [podManifest])]) = .ok inv ∧
        inv.list deep ⟨"", "v1", "Pod", ""⟩ = [r]) ∧
      VersionTable.versionOf (Table.ofList (Cluster.keyed [(flat, .text "v1.27.3")])) deep =
        .ok (.text "v1.27.3") := by
  have hblurs : flat.Blurs deep := ⟨rfl, .inr ⟨"b", by decide, by decide⟩⟩
  refine ⟨by decide, by decide, Engine.run_refuses_clusters_iff.mpr ⟨List.nodup_nil, ?_⟩,
    ⟨_, _, rfl, rfl⟩, rfl⟩
  intro hall
  exact ((List.pairwise_cons.mp hall).1 deep List.mem_cons_self).2.1 hblurs

open Sample in
/-- Single dashes keep clusters apart: each has its own arbitration and its own version, and a pod that
    runs in one is not found in the other. -/
theorem branch_and_hyphenated_kept_apart :
    (∃ p o, engine.run (fun _ => empty) [red] [branch, hyphenated] = .ok p ∧
      engine.evaluateCluster empty [red] hyphenated = .ok o ∧
      p.arbitrations.get? hyphenated.key = some o.arbitration) ∧
    (∃ inv, Inventory.ofManifests (Cluster.keyed [(branch, .list [podManifest]),
        (hyphenated, .list [])]) = .ok inv ∧ inv.list hyphenated ⟨"", "v1", "Pod", ""⟩ = []) ∧
    VersionTable.versionOf (Table.ofList (Cluster.keyed [(branch, .text "v1.27.3"),
      (hyphenated, .text "v1.28.0")])) hyphenated = .ok (.text "v1.28.0") := by
  obtain ⟨-, -, hown, hmanifests, -, -, hversions⟩ := Cluster.key_tells_apart_unless_blurred engine
    (fun _ => empty) [red] [branch, hyphenated]
  have hkeys : ([branch, hyphenated].map Cluster.key).Nodup := by decide
  have hclear : hyphenated.Clear [branch, hyphenated] := .of_nodup hkeys (by decide)
  have hrun := @Engine.run_eq_settled engine (fun _ => empty) [red] [branch, hyphenated] (by decide)
    hkeys
  obtain ⟨o, ho, hget, -⟩ := (hown _ hrun).1 hyphenated (by decide)
  obtain ⟨rss, hread, hlist⟩ := hmanifests hyphenated
    [(branch, .list [podManifest]), (hyphenated, .list [])] _ hclear rfl
  cases hread
  exact ⟨⟨_, o, hrun, ho, hget⟩, ⟨_, rfl, hlist _⟩,
    hversions hyphenated [(branch, .text "v1.27.3"), (hyphenated, .text "v1.28.0")] hclear⟩

end FleetLabels
