import PageSpeed.Rewriter.DomainLawyer

/-!
What the pointers of a lawyer lead to, and that merging an origin into a domain ends and
changes nothing but origins.
-/

namespace PageSpeed.Rewriter.DomainLawyer

variable {l l' l'' : DomainLawyer} {r : DomainRef} {n : GoogleString} {d : Domain}

def Points (l : DomainLawyer) (r : DomainRef) : Prop := r.owner = l.id ∧ r.name ∈ l.domainMap.keys

def Target (l : DomainLawyer) (r : DomainRef) : Prop := Points l r ∧ isWildcardName r.name = false

structure SameDomains (l l' : DomainLawyer) : Prop where
  id : l'.id = l.id
  keys : l'.domainMap.keys = l.domainMap.keys
  wildcards : l'.wildcardedDomains = l.wildcardedDomains

theorem SameDomains.refl (l : DomainLawyer) : SameDomains l l := ⟨rfl, rfl, rfl⟩

theorem SameDomains.trans (h : SameDomains l l') (h' : SameDomains l' l'') : SameDomains l l'' :=
  ⟨h'.id.trans h.id, h'.keys.trans h.keys, h'.wildcards.trans h.wildcards⟩

theorem SameDomains.points (h : SameDomains l l') : Points l' r ↔ Points l r := by
  unfold Points
  rw [h.id, h.keys]

theorem SameDomains.target (h : SameDomains l l') : Target l' r ↔ Target l r := by
  unfold Target
  rw [h.points]

theorem get_of_points (h : Points l r) : ∃ d, l.domainMap.get r.name = some d ∧ l.deref r = some d := by
  obtain ⟨d, hd⟩ := Option.isSome_iff_exists.mp ((SortedMap.mem_keys _ _).mp h.2)
  exact ⟨d, hd, by rw [deref, if_pos h.1, hd]⟩

theorem deref_eq (h : Points l r) : l.deref r = l.domainMap.get r.name := by
  rw [deref, if_pos h.1]

theorem points_of_deref (h : l.deref r = some d) : Points l r ∧ l.domainMap.get r.name = some d := by
  unfold deref at h
  split_ifs at h with howner
  exact ⟨⟨howner, (SortedMap.mem_keys _ _).mpr (by rw [h]; rfl)⟩, h⟩

theorem sameDomains_modify (l : DomainLawyer) (r : DomainRef) (f : Domain → Domain) : SameDomains l (l.modify r f) := by
  unfold modify
  split_ifs
  · exact ⟨rfl, SortedMap.keys_modify _ _ _, rfl⟩
  · exact SameDomains.refl l

theorem get_modify (h : Points l r) (f : Domain → Domain) (n : GoogleString) :
    (l.modify r f).domainMap.get n = if n = r.name then (l.domainMap.get n).map f else l.domainMap.get n := by
  rw [modify, if_pos h.1]
  dsimp only
  rw [SortedMap.get_modify]
  split_ifs with hn
  · rw [hn]
  · rfl

theorem crashed_modify (l : DomainLawyer) (r : DomainRef) (f : Domain → Domain) :
    (l.modify r f).crashed = l.crashed := by
  unfold modify
  split_ifs <;> rfl

structure Domain.Linked (l : DomainLawyer) (d : Domain) : Prop where
  rewrite : ∀ r, d.rewriteDomain = some r → Target l r ∧ r.name ≠ d.name
  origin : ∀ r, d.originDomain = some r → Target l r
  shards : ∀ r ∈ d.shards, Points l r ∧ r.name ≠ d.name
  sharded : d.shards ≠ [] → isWildcardName d.name = false

structure GraphOk (l : DomainLawyer) : Prop where
  named : ∀ n d, l.domainMap.get n = some d → d.name = n
  linked : ∀ n d, l.domainMap.get n = some d → Domain.Linked l d
  cleared : ∀ n d, l.domainMap.get n = some d → d.cycleBreadcrumb = false
  running : l.crashed = false

theorem Domain.Linked.mono (h : Domain.Linked l d) (hpoints : ∀ r, Points l r → Points l' r) :
    Domain.Linked l' d where
  rewrite r hr := ⟨⟨hpoints r (h.rewrite r hr).1.1, (h.rewrite r hr).1.2⟩, (h.rewrite r hr).2⟩
  origin r hr := ⟨hpoints r (h.origin r hr).1, (h.origin r hr).2⟩
  shards r hr := ⟨hpoints r (h.shards r hr).1, (h.shards r hr).2⟩
  sharded := h.sharded

theorem Domain.Linked.same (h : Domain.Linked l d) (hsame : SameDomains l l') : Domain.Linked l' d :=
  h.mono fun _ hr => hsame.points.mpr hr

variable {f : Domain → Domain} {origin : Option DomainRef}

theorem GraphOk.modify (h : GraphOk l) (hr : Points l r) (hf : ∀ d, l.domainMap.get r.name = some d →
      (f d).name = d.name ∧ (f d).cycleBreadcrumb = d.cycleBreadcrumb ∧ Domain.Linked l (f d)) :
    GraphOk (l.modify r f) := by
  have hsame := sameDomains_modify l r f
  have hget : ∀ n d, (l.modify r f).domainMap.get n = some d →
      l.domainMap.get n = some d ∨ ∃ d₀, n = r.name ∧ l.domainMap.get n = some d₀ ∧ d = f d₀ := by
    intro n d hd
    rw [get_modify hr] at hd
    split_ifs at hd with hn
    · obtain ⟨d₀, hd₀, rfl⟩ := Option.map_eq_some_iff.mp hd
      exact Or.inr ⟨d₀, hn, hd₀, rfl⟩
    · exact Or.inl hd
  refine ⟨?_, ?_, ?_, (crashed_modify l r f).trans h.running⟩
  · intro n d hd
    obtain hd | ⟨d₀, hn, hd₀, rfl⟩ := hget n d hd
    · exact h.named n d hd
    · exact (hf d₀ (hn ▸ hd₀)).1.trans (h.named n d₀ hd₀)
  · intro n d hd
    obtain hd | ⟨d₀, hn, hd₀, rfl⟩ := hget n d hd
    · exact (h.linked n d hd).same hsame
    · exact (hf d₀ (hn ▸ hd₀)).2.2.same hsame
  · intro n d hd
    obtain hd | ⟨d₀, hn, hd₀, rfl⟩ := hget n d hd
    · exact h.cleared n d hd
    · exact (hf d₀ (hn ▸ hd₀)).2.1.trans (h.cleared n d₀ hd₀)

structure OriginsSet (origin : Option DomainRef) (l l' : DomainLawyer) : Prop where
  frame : { l' with domainMap := l.domainMap } = l
  keys : l'.domainMap.keys = l.domainMap.keys
  domains : ∀ n d, l.domainMap.get n = some d →
    ∃ o, l'.domainMap.get n = some { d with originDomain := o } ∧ (o = d.originDomain ∨ o = origin)

theorem OriginsSet.refl (origin : Option DomainRef) (l : DomainLawyer) : OriginsSet origin l l :=
  ⟨rfl, rfl, fun _ d hd => ⟨d.originDomain, hd, Or.inl rfl⟩⟩

theorem OriginsSet.trans (h : OriginsSet origin l l') (h' : OriginsSet origin l' l'') : OriginsSet origin l l'' := by
  refine ⟨?_, h'.keys.trans h.keys, ?_⟩
  · have hframe := congrArg (fun k : DomainLawyer => { k with domainMap := l.domainMap }) h'.frame
    exact hframe.trans h.frame
  · intro n d hd
    obtain ⟨o, ho, hold⟩ := h.domains n d hd
    obtain ⟨o', ho', hold'⟩ := h'.domains n _ ho
    refine ⟨o', ho', ?_⟩
    obtain heq | heq := hold'
    · rw [heq]
      exact hold
    · exact Or.inr heq

theorem OriginsSet.same (h : OriginsSet origin l l') : SameDomains l l' := by
  have hid := congrArg DomainLawyer.id h.frame
  have hwildcards := congrArg DomainLawyer.wildcardedDomains h.frame
  exact ⟨hid, h.keys, hwildcards⟩

theorem OriginsSet.running (h : OriginsSet origin l l') : l'.crashed = l.crashed := by
  have hcrashed := congrArg DomainLawyer.crashed h.frame
  exact hcrashed

theorem OriginsSet.get (h : OriginsSet origin l l') (n : GoogleString) :
    (l.domainMap.get n = none ∧ l'.domainMap.get n = none) ∨ ∃ d o, l.domainMap.get n = some d ∧
      l'.domainMap.get n = some { d with originDomain := o } ∧ (o = d.originDomain ∨ o = origin) := by
  cases hd : l.domainMap.get n with
  | none =>
    have hn : n ∉ l'.domainMap.keys := by
      rw [h.keys, SortedMap.mem_keys, hd]
      exact Bool.false_ne_true
    rw [SortedMap.mem_keys, Bool.not_eq_true, Option.isSome_eq_false_iff, Option.isNone_iff_eq_none] at hn
    exact Or.inl ⟨rfl, hn⟩
  | some d =>
    obtain ⟨o, ho, hold⟩ := h.domains n d hd
    exact Or.inr ⟨d, o, rfl, ho, hold⟩

theorem OriginsSet.graphOk (h : OriginsSet origin l l') (hl : GraphOk l)
    (horigin : ∀ r, origin = some r → Target l r) : GraphOk l' := by
  have hget : ∀ n d', l'.domainMap.get n = some d' → ∃ d o, l.domainMap.get n = some d ∧
      d' = { d with originDomain := o } ∧ (o = d.originDomain ∨ o = origin) := by
    intro n d' hd'
    obtain ⟨hn, hn'⟩ | ⟨d, o, hd, ho, hold⟩ := h.get n
    · rw [hn'] at hd'
      cases hd'
    · exact ⟨d, o, hd, Option.some_inj.mp (hd'.symm.trans ho), hold⟩
  constructor
  · intro n d' hd'
    obtain ⟨d, o, hd, rfl, _⟩ := hget n d' hd'
    exact hl.named n d hd
  · intro n d' hd'
    obtain ⟨d, o, hd, rfl, hold⟩ := hget n d' hd'
    have hlinked := (hl.linked n d hd).same h.same
    refine ⟨hlinked.rewrite, ?_, hlinked.shards, hlinked.sharded⟩
    intro r hr
    obtain rfl | rfl := hold
    · exact hlinked.origin r hr
    · exact h.same.target.mpr (horigin r hr)
  · intro n d' hd'
    obtain ⟨d, o, hd, rfl, _⟩ := hget n d' hd'
    exact hl.cleared n d hd
  · exact h.running.trans hl.running

/-! `MergeOrigin` goes through every domain at most once: a domain with a breadcrumb ends it. -/

def uncrumbed (l : DomainLawyer) (n : GoogleString) : Bool := (l.domainMap.get n).any fun d => !d.cycleBreadcrumb

def Walkable (l : DomainLawyer) : Prop :=
  ∀ n d, l.domainMap.get n = some d → (∀ r, d.rewriteDomain = some r → Points l r) ∧ ∀ r ∈ d.shards, Points l r

theorem GraphOk.walkable (h : GraphOk l) : Walkable l := by
  intro n d hd
  constructor
  · intro r hr
    exact ((h.linked n d hd).rewrite r hr).1.1
  · intro r hr
    exact ((h.linked n d hd).shards r hr).1

theorem Walkable.modify (h : Walkable l) (hr : Points l r)
    (hf : ∀ d, (f d).rewriteDomain = d.rewriteDomain ∧ (f d).shards = d.shards) : Walkable (l.modify r f) := by
  have hsame := sameDomains_modify l r f
  intro n d hd
  rw [get_modify hr] at hd
  simp only [hsame.points]
  split_ifs at hd with hn
  · obtain ⟨d₀, hd₀, rfl⟩ := Option.map_eq_some_iff.mp hd
    rw [(hf d₀).1, (hf d₀).2]
    exact h n d₀ hd₀
  · exact h n d hd

theorem OriginsSet.uncrumbed (h : OriginsSet origin l l') : l'.uncrumbed = l.uncrumbed := by
  funext n
  unfold DomainLawyer.uncrumbed
  obtain ⟨hn, hn'⟩ | ⟨d, o, hd, hd', _⟩ := h.get n
  · rw [hn, hn']
  · rw [hd, hd']
    rfl

theorem OriginsSet.walkable (h : OriginsSet origin l l') (hl : Walkable l) : Walkable l' := by
  intro n d hd
  simp only [h.same.points]
  obtain ⟨hn, hn'⟩ | ⟨d₀, o, hd₀, hd', _⟩ := h.get n
  · rw [hn'] at hd
    cases hd
  · rw [hd'] at hd
    cases hd
    exact hl n d₀ hd₀

theorem countP_lt {α : Type} {p q : α → Bool} {a : α} {s : List α} (hpq : ∀ x, q x = true → p x = true)
    (ha : a ∈ s) (hp : p a = true) (hq : q a = false) : s.countP q < s.countP p := by
  induction s with
  | nil => cases ha
  | cons b s ih =>
    rw [List.countP_cons, List.countP_cons]
    have hle := List.countP_mono_left (fun x (_ : x ∈ s) => hpq x)
    cases ha with
    | head =>
      rw [hp, hq]
      simp only [Bool.false_eq_true, if_false, if_true]
      omega
    | tail _ ha =>
      have hlt := ih ha
      by_cases hb : q b = true
      · rw [if_pos hb, if_pos (hpq b hb)]
        omega
      · rw [if_neg hb]
        omega

def Walks (origin : Option DomainRef) (l : DomainLawyer) (result : Option DomainLawyer) : Prop :=
  ∃ l', result = some l' ∧ OriginsSet origin l l'

theorem Walks.foldlM {walk : DomainLawyer → DomainRef → Option DomainLawyer}
    {refs : List DomainRef} (hwalk : ∀ l', OriginsSet origin l l' → ∀ r ∈ refs, Walks origin l' (walk l' r)) :
    Walks origin l (refs.foldlM walk l) := by
  induction refs generalizing l with
  | nil => exact ⟨l, rfl, OriginsSet.refl origin l⟩
  | cons r refs ih =>
    obtain ⟨l₁, hl₁, hset₁⟩ := hwalk l (OriginsSet.refl origin l) r List.mem_cons_self
    obtain ⟨l₂, hl₂, hset₂⟩ := ih fun l' hl' r' hr' => hwalk l' (hset₁.trans hl') r' (List.mem_cons_of_mem _ hr')
    rw [List.foldlM_cons, hl₁]
    exact ⟨l₂, hl₂, hset₁.trans hset₂⟩

theorem OriginsSet.crumb {k : DomainLawyer} {o : Option DomainRef} (hr : Points l r) (hd : l.domainMap.get r.name = some d)
    (hcrumb : d.cycleBreadcrumb = false)
    (h : OriginsSet o (l.modify r fun d => { d with cycleBreadcrumb := true }) k) :
    OriginsSet o l (k.modify r fun d => { d with cycleBreadcrumb := false }) := by
  have hsame := sameDomains_modify l r fun d => { d with cycleBreadcrumb := true }
  have hr' : Points k r := h.same.points.mpr (hsame.points.mpr hr)
  refine ⟨?_, ?_, ?_⟩
  · have hframe := congrArg (fun j : DomainLawyer => { j with domainMap := l.domainMap }) h.frame
    rw [modify, if_pos hr'.1]
    rw [modify, if_pos hr.1] at hframe
    exact hframe
  · rw [(sameDomains_modify k r _).keys, h.keys, hsame.keys]
  · intro n d₁ hd₁
    rw [get_modify hr']
    by_cases hn : n = r.name
    · rw [hn, hd] at hd₁
      obtain rfl := Option.some_inj.mp hd₁
      obtain ⟨o', ho, hold⟩ := h.domains n { d with cycleBreadcrumb := true } (by
        rw [get_modify hr, if_pos hn, hn, hd]
        rfl)
      rw [if_pos hn, ho]
      refine ⟨o', ?_, hold⟩
      rw [← hcrumb]
      rfl
    · obtain ⟨o', ho, hold⟩ := h.domains n d₁ (by rw [get_modify hr, if_neg hn, hd₁])
      rw [if_neg hn]
      exact ⟨o', ho, hold⟩

theorem originsSet_set (origin : Option DomainRef) (hr : Points l r) :
    OriginsSet origin l (l.modify r fun d => { d with originDomain := origin }) := by
  refine ⟨?_, (sameDomains_modify l r _).keys, ?_⟩
  · rw [modify, if_pos hr.1]
  · intro n d hd
    rw [get_modify hr]
    split_ifs with hn
    · exact ⟨origin, by rw [hd]; rfl, Or.inr rfl⟩
    · exact ⟨d.originDomain, by rw [hd], Or.inl rfl⟩

theorem uncrumbed_lt (hr : Points l r) (hd : l.domainMap.get r.name = some d) (hcrumb : d.cycleBreadcrumb = false) :
    (l.modify r fun d => { d with cycleBreadcrumb := true }).domainMap.keys.countP
      (l.modify r fun d => { d with cycleBreadcrumb := true }).uncrumbed < l.domainMap.keys.countP l.uncrumbed := by
  rw [(sameDomains_modify l r _).keys]
  apply countP_lt _ hr.2
  · rw [uncrumbed, hd, Option.any_some, hcrumb]
    rfl
  · rw [uncrumbed, get_modify hr, if_pos rfl, hd]
    rfl
  · intro n hn
    rw [uncrumbed, get_modify hr] at hn
    split_ifs at hn with hname
    · rw [Option.any_map, Option.any_eq_true] at hn
      obtain ⟨_, _, h⟩ := hn
      cases h
    · exact hn

theorem mergeOriginFuel_walks (fuel : ℕ) : ∀ (l : DomainLawyer) (r : DomainRef) (origin : Option DomainRef),
    Walkable l → Points l r → l.domainMap.keys.countP l.uncrumbed < fuel →
      Walks origin l (mergeOriginFuel fuel l r origin) := by
  induction fuel with
  | zero =>
    intro l r origin _ _ hfuel
    omega
  | succ fuel ih =>
    intro l r origin hl hr hfuel
    obtain ⟨d, hd, hderef⟩ := get_of_points hr
    rw [mergeOriginFuel, hderef]
    dsimp only
    split_ifs with hcrumb hset
    · exact ⟨l, rfl, OriginsSet.refl origin l⟩
    all_goals
      rw [Bool.not_eq_true] at hcrumb
      have hlt := uncrumbed_lt hr hd hcrumb
      have hsame := sameDomains_modify l r fun d => { d with cycleBreadcrumb := true }
      have hwalkable : Walkable (l.modify r fun d => { d with cycleBreadcrumb := true }) :=
        hl.modify hr fun _ => ⟨rfl, rfl⟩
      have hcrumbs := fun k => OriginsSet.crumb (k := k) (o := origin) hr hd hcrumb
      generalize (l.modify r fun d => { d with cycleBreadcrumb := true }) = l₁ at hlt hsame hwalkable hcrumbs ⊢
    · have hr₁ : Points l₁ r := hsame.points.mpr hr
      -- a call on a neighbour has one domain fewer to go through
      have hcall : ∀ l', OriginsSet origin l₁ l' → ∀ r', Points l r' →
          Walks origin l' (mergeOriginFuel fuel l' r' origin) := by
        intro l' hl' r' hr'
        apply ih l' r' origin (hl'.walkable hwalkable)
        · exact hl'.same.points.mpr (hsame.points.mpr hr')
        · rw [hl'.keys, hl'.uncrumbed]
          omega
      have hset₁ := originsSet_set origin hr₁
      have hshards : Walks origin (l₁.modify r fun d => { d with originDomain := origin })
          (d.shards.foldlM (fun l shard => mergeOriginFuel fuel l shard origin)
            (l₁.modify r fun d => { d with originDomain := origin })) := by
        apply Walks.foldlM
        intro l₂ hl₂ r' hr'
        exact hcall l₂ (hset₁.trans hl₂) r' ((hl r.name d hd).2 r' hr')
      obtain ⟨l₂, hresult, hl₂⟩ := hshards
      dsimp only [bind, Option.bind]
      rw [hresult]
      cases hrewrite : d.rewriteDomain with
      | none => exact ⟨_, rfl, hcrumbs l₂ (hset₁.trans hl₂)⟩
      | some r' =>
        obtain ⟨l₃, hresult', hl₃⟩ := hcall l₂ (hset₁.trans hl₂) r' ((hl r.name d hd).1 r' hrewrite)
        dsimp only
        rw [hresult']
        exact ⟨_, rfl, hcrumbs l₃ ((hset₁.trans hl₂).trans hl₃)⟩
    · exact ⟨_, rfl, hcrumbs l₁ (OriginsSet.refl origin l₁)⟩

theorem originsSet_mergeOrigin (h : GraphOk l) (hr : Points l r) (origin : Option DomainRef) :
    OriginsSet origin l (l.mergeOrigin r origin) := by
  have hfuel := Nat.lt_succ_of_le (List.countP_le_length (p := l.uncrumbed) (l := l.domainMap.keys))
  obtain ⟨l', hresult, hl'⟩ := mergeOriginFuel_walks _ l r origin h.walkable hr hfuel
  rw [mergeOrigin, hresult]
  exact hl'

/-! The setters. -/

structure Kept (l l' : DomainLawyer) : Prop where
  graph : GraphOk l'
  same : SameDomains l l'

theorem Kept.refl (h : GraphOk l) : Kept l l := ⟨h, SameDomains.refl l⟩

theorem Kept.trans (h : Kept l l') (h' : Kept l' l'') : Kept l l'' := ⟨h'.graph, h.same.trans h'.same⟩

theorem kept_mergeOrigin (h : GraphOk l) (hr : Points l r)
    (horigin : ∀ r, origin = some r → Target l r) : Kept l (l.mergeOrigin r origin) := by
  have hset := originsSet_mergeOrigin h hr origin
  exact ⟨hset.graphOk h horigin, hset.same⟩

theorem kept_modify (h : GraphOk l) (hr : Points l r) (hf : ∀ d, l.domainMap.get r.name = some d →
      (f d).name = d.name ∧ (f d).cycleBreadcrumb = d.cycleBreadcrumb ∧ Domain.Linked l (f d)) :
    Kept l (l.modify r f) := ⟨h.modify hr hf, sameDomains_modify l r f⟩

def KeepsGraph (setDomainFn : SetDomainFn) (allowWildcards : Bool) : Prop :=
  ∀ l self r, GraphOk l → Points l self → Target l r → r.name ≠ self.name →
    (allowWildcards = false → isWildcardName self.name = false) → Kept l (setDomainFn l self r).2

theorem KeepsGraph.of_all {setDomainFn : SetDomainFn} (h : KeepsGraph setDomainFn true) : KeepsGraph setDomainFn false := by
  intro l self r hl hself hr hne _
  exact h l self r hl hself hr hne nofun

theorem keepsGraph_setRewriteDomain : KeepsGraph setRewriteDomain true := by
  intro l self r hl hself hr hne _
  obtain ⟨d, hd, hderef⟩ := get_of_points hself
  rw [setRewriteDomain, hderef]
  dsimp only
  split_ifs
  · exact Kept.refl hl
  · exact Kept.refl hl
  · have hlinked := hl.linked self.name d hd
    have hset : Kept l (l.modify self fun d => { d with rewriteDomain := some r }) := by
      apply kept_modify hl hself
      intro d₀ hd₀
      have hlinked₀ := hl.linked self.name d₀ hd₀
      refine ⟨rfl, rfl, ?_, hlinked₀.origin, hlinked₀.shards, hlinked₀.sharded⟩
      intro r' hr'
      obtain rfl := Option.some_inj.mp hr'
      exact ⟨hr, by rw [hl.named self.name d₀ hd₀]; exact hne⟩
    apply hset.trans
    apply kept_mergeOrigin hset.graph (hset.same.points.mpr hr.1)
    intro r' hr'
    exact hset.same.target.mpr (hlinked.origin r' hr')

theorem kept_setOriginDomain {self : DomainRef} (hl : GraphOk l) (hself : Points l self) (hr : Target l r) :
    Kept l (l.setOriginDomain self r).2 := by
  obtain ⟨d, hd, hderef⟩ := get_of_points hself
  rw [setOriginDomain, hderef]
  dsimp only
  split_ifs
  · exact Kept.refl hl
  · exact Kept.refl hl
  · have hset : Kept l (l.mergeOrigin self (some r)) := by
      apply kept_mergeOrigin hl hself
      intro r' hr'
      exact Option.some_inj.mp hr' ▸ hr
    obtain ⟨d₁, hd₁, hderef₁⟩ := get_of_points (hset.same.points.mpr hself)
    rw [hderef₁]
    dsimp only
    have hlinked := hset.graph.linked self.name d₁ hd₁
    cases hrewrite : d₁.rewriteDomain with
    | none => exact hset
    | some r' =>
      apply hset.trans
      exact kept_mergeOrigin hset.graph (hlinked.rewrite r' hrewrite).1.1 hlinked.origin

theorem keepsGraph_setOriginDomain : KeepsGraph setOriginDomain true := by
  intro l self r hl hself hr _ _
  exact kept_setOriginDomain hl hself hr

theorem keepsGraph_setProxyDomain : KeepsGraph setProxyDomain false := by
  intro l self r hl hself hr hne hwildcard
  have hproxy : Kept l (l.modify r fun d => { d with isProxy := true }) := by
    apply kept_modify hl hr.1
    intro d hd
    have hlinked := hl.linked r.name d hd
    exact ⟨rfl, rfl, hlinked.rewrite, hlinked.origin, hlinked.shards, hlinked.sharded⟩
  have horigin := hproxy.trans (kept_setOriginDomain hproxy.graph (hproxy.same.points.mpr hself)
    (hproxy.same.target.mpr hr))
  unfold setProxyDomain
  dsimp only
  split
  · next heq =>
    rw [heq] at horigin
    exact horigin
  · next heq =>
    rw [heq] at horigin
    exact horigin.trans (keepsGraph_setRewriteDomain _ r self horigin.graph (horigin.same.points.mpr hr.1)
      (horigin.same.target.mpr ⟨hself, hwildcard rfl⟩) hne.symm nofun)

theorem keepsGraph_setShardFrom (handler : Bool) : KeepsGraph (setShardFrom handler) true := by
  intro l self r hl hself hr hne _
  obtain ⟨d, hd, hderef⟩ := get_of_points hself
  obtain ⟨target, htarget, hderef'⟩ := get_of_points hr.1
  rw [setShardFrom, hderef, hderef']
  dsimp only
  split_ifs
  · exact Kept.refl hl
  · have hmerge := kept_mergeOrigin hl hself (hl.linked r.name target htarget).origin
    generalize l.mergeOrigin self target.originDomain = l₁ at hmerge ⊢
    have hshard : Kept l₁ (l₁.modify r fun d => { d with shards := d.shards ++ [self] }) := by
      apply kept_modify hmerge.graph (hmerge.same.points.mpr hr.1)
      intro d₁ hd₁
      have hlinked := hmerge.graph.linked r.name d₁ hd₁
      have hname := hmerge.graph.named r.name d₁ hd₁
      refine ⟨rfl, rfl, hlinked.rewrite, hlinked.origin, ?_, fun _ => hname ▸ hr.2⟩
      intro r' hr'
      obtain hr' | hr' := List.mem_append.mp hr'
      · exact hlinked.shards r' hr'
      · obtain rfl := List.mem_singleton.mp hr'
        exact ⟨hmerge.same.points.mpr hself, by rw [hname]; exact hne.symm⟩
    have hboth := hmerge.trans hshard
    apply hboth.trans
    apply kept_modify hboth.graph (hboth.same.points.mpr hself)
    intro d₂ hd₂
    have hlinked := hboth.graph.linked self.name d₂ hd₂
    refine ⟨rfl, rfl, ?_, hlinked.origin, hlinked.shards, hlinked.sharded⟩
    intro r' hr'
    obtain rfl := Option.some_inj.mp hr'
    exact ⟨hboth.same.target.mpr hr, by rw [hboth.graph.named self.name d₂ hd₂]; exact hne⟩

end PageSpeed.Rewriter.DomainLawyer
