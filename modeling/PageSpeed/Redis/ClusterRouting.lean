import PageSpeed.Redis.ClusterSlots
import PageSpeed.Lib.Machine
import Mathlib.Data.List.Sort

/-!
Routing over whole runs: slot mappings that are fetched and redirections that
are followed between them. The mappings in use are always those of the last
reply that was accepted.
-/

namespace PageSpeed.Redis

variable {S : SlotSort} {c c' : RedisCache} {spec : ExternalServerSpec} {name : GoogleString} {db : ℤ}

def ValidatedMapping.Valid (v : ValidatedMapping) : Prop :=
  0 ≤ v.startSlotRange ∧ v.startSlotRange ≤ v.endSlotRange ∧ v.endSlotRange ≤ kMaxSlot ∧ v.master.Network

namespace RedisCache

structure Extends (c c' : RedisCache) : Prop where
  kept : ∀ name connection, c.connections.get name = some connection → c'.connections.get name = some connection
  mappings : c'.clusterMappings = c.clusterMappings
  main : c'.mainConnection = c.mainConnection

theorem Extends.refl (c : RedisCache) : Extends c c := ⟨fun _ _ h => h, rfl, rfl⟩

theorem Extends.trans {c'' : RedisCache} (h : Extends c c') (h' : Extends c' c'') : Extends c c'' :=
  ⟨fun name connection hget => h'.kept name connection (h.kept name connection hget), h'.mappings.trans h.mappings,
    h'.main.trans h.main⟩

structure Named (c : RedisCache) : Prop where
  name : ∀ name connection, c.connections.get name = some connection → connection.spec.toString = name
  network : ∀ name connection, c.connections.get name = some connection →
    connection = c.mainConnection ∨ connection.spec.Network
  size : c.size ≤ kMaxClusterConnections

variable {r : Option Connection} {v : ValidatedMapping} {vs : List ValidatedMapping}

theorem getOrCreateConnection_cases (h : c.getOrCreateConnection spec db = some (c', r)) :
    (∃ connection, r = some connection ∧ c.connections.get spec.toString = some connection ∧ c' = c) ∨
    (c.connections.get spec.toString = none ∧ kMaxClusterConnections ≤ c.size ∧ r = none ∧ c' = c) ∨
    (c.connections.get spec.toString = none ∧ c.size < kMaxClusterConnections ∧ r = some ⟨spec, db⟩ ∧
      c' = c.emplace spec.toString ⟨spec, db⟩) := by
  rw [getOrCreateConnection] at h
  dsimp only at h
  split at h
  · rename_i connection hget
    cases h
    exact Or.inl ⟨connection, rfl, hget, rfl⟩
  · rename_i hget
    split_ifs at h with hfull hbad
    · cases h
      exact Or.inr (Or.inl ⟨hget, hfull, rfl, rfl⟩)
    · cases h
      exact Or.inr (Or.inr ⟨hget, not_le.mp hfull, rfl, rfl⟩)

theorem size_emplace {connection : Connection} (hnone : c.connections.get spec.toString = none) :
    (c.emplace spec.toString connection).size = c.size + 1 := by
  have hperm := SortedMap.perm_keys_insert (fun a b => decide (a < b)) c.connections spec.toString connection hnone
  simpa [SortedMap.keys, size, emplace] using hperm.length_eq

structure Serves (c : RedisCache) (v : ValidatedMapping) (m : ClusterMapping) : Prop where
  first : m.startSlotRange = v.startSlotRange
  last : m.endSlotRange = v.endSlotRange
  connection : c.connections.get v.master.toString = some m.connection

end RedisCache

section HashSlot

variable {crc16 : GoogleString → UInt16} {key front text back : GoogleString}

end HashSlot

def RedisReply.ranges (reply : RedisReply) : List ValidatedMapping :=
  match reply.element.mapM readMapping with
  | .ok ranges => ranges
  | .error _ => []

def ValidatedMapping.Covers (v : ValidatedMapping) (slot : ℤ) : Prop :=
  v.startSlotRange ≤ slot ∧ slot ≤ v.endSlotRange

inductive Event where
  | slots (reply : RedisReply)
  | redirect (error : GoogleString)

def serve (S : SlotSort) (state : RedisCache × List ValidatedMapping) : Event → Option (RedisCache × List ValidatedMapping)
  | .slots reply =>
    (state.1.fetchClusterSlotMapping S reply).map fun (c, verdict) =>
      (c, if verdict = .accepted then reply.ranges else state.2)
  | .redirect error =>
    let redirectedTo := ExternalServerSpec.parseRedirectionError error
    if redirectedTo.isEmpty then some state
    else (state.1.getOrCreateConnection redirectedTo kDefaultDatabaseIndex).map fun (c, _) => (c, state.2)

structure RedisCache.Routes (c : RedisCache) (ranges : List ValidatedMapping) : Prop where
  named : c.Named
  valid : ∀ v ∈ ranges, v.Valid
  separated : Ranges.Separated ClusterMapping.startSlotRange ClusterMapping.endSlotRange c.clusterMappings
  serves : ∃ validated, validated.Perm ranges ∧ List.Forall₂ c.Serves validated c.clusterMappings

namespace RedisCache

open ValidatedMapping

variable {ranges : List ValidatedMapping} {reply : RedisReply}

variable {v : ValidatedMapping} {m : ClusterMapping} {validated : List ValidatedMapping}

theorem Extends.serves (h : Extends c c') (hs : Serves c v m) : Serves c' v m :=
  ⟨hs.first, hs.last, h.kept _ _ hs.connection⟩

theorem ends_eq {mappings : List ClusterMapping} (h : List.Forall₂ (Serves c) validated mappings) :
    mappings.map (fun m => (m.startSlotRange, m.endSlotRange)) =
      validated.map fun v => (v.startSlotRange, v.endSlotRange) := by
  induction h with
  | nil => rfl
  | cons hs _ ih => rw [List.map_cons, List.map_cons, ih, hs.first, hs.last]

theorem disjoint_of_forall₂ (hs : List.Forall₂ (Serves c) validated c.clusterMappings)
    (h : Ranges.Separated ClusterMapping.startSlotRange ClusterMapping.endSlotRange c.clusterMappings) :
    validated.Pairwise fun v w => ∀ slot, ¬ (v.Covers slot ∧ w.Covers slot) := by
  have hseparated : Ranges.Separated startSlotRange endSlotRange validated :=
    Ranges.separated_of_map (ends_eq hs).symm h
  refine List.Pairwise.imp ?_ hseparated
  rintro v w hvw slot ⟨hv, hw⟩
  exact absurd (hw.1.trans hv.2) hvw.not_ge

theorem Routes.disjoint (h : Routes c ranges) :
    ranges.Pairwise fun v w => ∀ slot, ¬ (v.Covers slot ∧ w.Covers slot) := by
  obtain ⟨validated, hperm, hserves⟩ := h.serves
  refine (hperm.pairwise_iff ?_).mp (disjoint_of_forall₂ hserves h.separated)
  exact fun hvw slot hboth => hvw slot hboth.symm

theorem exists_left {α β : Type} {R : α → β → Prop} {l : List α} {m : List β} {b : β} (h : List.Forall₂ R l m)
    (hb : b ∈ m) : ∃ a ∈ l, R a b := by
  induction h with
  | nil => cases hb
  | @cons a b' l m hR _ ih =>
    rcases List.mem_cons.mp hb with rfl | hb
    · exact ⟨a, List.mem_cons_self, hR⟩
    · obtain ⟨a', ha', hR'⟩ := ih hb
      exact ⟨a', List.mem_cons_of_mem a ha', hR'⟩

theorem Routes.range_of_mapping (h : Routes c ranges) (hm : m ∈ c.clusterMappings) : ∃ v ∈ ranges, Serves c v m := by
  obtain ⟨validated, hperm, hserves⟩ := h.serves
  obtain ⟨v, hv, hvm⟩ := exists_left hserves hm
  exact ⟨v, hperm.mem_iff.mp hv, hvm⟩

theorem Routes.bounds (h : Routes c ranges) (hm : m ∈ c.clusterMappings) :
    0 ≤ m.startSlotRange ∧ m.startSlotRange ≤ m.endSlotRange ∧ m.endSlotRange ≤ kMaxSlot := by
  obtain ⟨v, hv, hserves⟩ := h.range_of_mapping hm
  obtain ⟨hlow, hle, hhigh, -⟩ := h.valid v hv
  rw [hserves.first, hserves.last]
  exact ⟨hlow, hle, hhigh⟩

variable {crc16 : GoogleString → UInt16} {key : GoogleString}

theorem Routes.server (h : Routes c ranges) {connection : Connection} (hv : v ∈ ranges)
    (hget : c.connections.get v.master.toString = some connection) :
    connection = c.mainConnection ∨ connection.spec = v.master := by
  rcases h.named.network _ _ hget with hmain | hnetwork
  · exact Or.inl hmain
  · exact Or.inr (hnetwork.eq_of_toString (h.valid v hv).2.2.2 (h.named.name _ _ hget))

def insertionSort : SlotSort where
  sort l := l.insertionSort fun a b => a.startSlotRange ≤ b.startSlotRange
  perm l := List.perm_insertionSort _ l
  sorted l :=
    have : Std.Total fun a b : ValidatedMapping => a.startSlotRange ≤ b.startSlotRange := ⟨fun _ _ => le_total _ _⟩
    have : IsTrans ValidatedMapping fun a b => a.startSlotRange ≤ b.startSlotRange := ⟨fun _ _ _ => le_trans⟩
    List.pairwise_insertionSort _ l

def mainServer : ExternalServerSpec := ⟨ascii "127.0.0.1", 6379⟩

end RedisCache

end PageSpeed.Redis
