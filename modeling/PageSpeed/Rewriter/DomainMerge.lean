import PageSpeed.Rewriter.DomainInvariants

/-!
Merging a lawyer whose names stay as they are when they are normalized again.
-/

namespace PageSpeed.Rewriter.DomainLawyer

variable {src l l' l'' : DomainLawyer} {r : DomainRef} {n : GoogleString} {d : Domain}

def NamesNormal (l : DomainLawyer) : Prop := ∀ n ∈ l.domainMap.keys, normalizeDomainName n = n

theorem isEmpty_of_normal (h : normalizeDomainName n = n) : n.isEmpty = false := by
  cases n with
  | nil => exact absurd h (by decide)
  | cons c n => rfl

structure Merged (src l l' : DomainLawyer) : Prop where
  grown : Grown l l'
  within : Within (· ∈ src.domainMap.keys) l l'

theorem Merged.refl (h : WellFormed l) : Merged src l l := ⟨Grown.refl h, fun _ hn => Or.inl hn⟩

theorem Merged.trans (h : Merged src l l') (h' : Merged src l' l'') : Merged src l l'' :=
  ⟨h.grown.trans h'.grown, h.within.trans h'.within⟩

theorem Merged.of_kept (h : Kept l l') (hl : WellFormed l) : Merged src l l' := ⟨h.grown hl, h.same.within _⟩

theorem fst_addDomainHelper {name : GoogleString} (hne : name.isEmpty = false) (authorize isProxy : Bool) :
    (l.addDomainHelper name false authorize isProxy).1 = some ⟨l.id, normalizeDomainName name⟩ := by
  cases hname : l.domainMap.get (normalizeDomainName name) with
  | none => rw [addDomainHelper_of_new hname hne]
  | some d =>
    rw [addDomainHelper_of_old hname hne, if_neg]
    rintro ⟨h, _⟩
    cases h

theorem cloneAndAdd_merged (h : WellFormed l) (hname : d.name ∈ src.domainMap.keys)
    (hnormal : normalizeDomainName d.name = d.name) :
    ∃ l', l.cloneAndAdd d = (some ⟨l.id, d.name⟩, l') ∧ Merged src l l' ∧ Points l' ⟨l.id, d.name⟩ := by
  have hadded := added_addDomainHelper h d.name false d.authorized d.isProxy
  have hfst := fst_addDomainHelper (l := l) (isEmpty_of_normal hnormal) d.authorized d.isProxy
  unfold cloneAndAdd
  generalize l.addDomainHelper d.name false d.authorized d.isProxy = result at hadded hfst ⊢
  obtain ⟨ref, l₁⟩ := result
  rw [hnormal] at hfst
  obtain rfl : ref = _ := hfst
  have hpoints := (hadded.ref _ rfl).2
  have hset := grown_modify (f := fun d₁ => { d₁ with hostHeader := d.hostHeader }) hadded.grown.wellFormed hpoints
    fun _ => ⟨rfl, rfl, rfl, rfl, rfl⟩
  refine ⟨_, rfl, ⟨hadded.grown.trans hset, ?_⟩, hset.points hpoints⟩
  have hwithin : Within (· ∈ src.domainMap.keys) l l₁ := by
    intro n hn
    obtain hn | rfl := hadded.within n hn
    · exact Or.inl hn
    · exact Or.inr (by rw [hnormal]; exact hname)
  exact hwithin.trans ((sameDomains_modify _ _ _).within _)

theorem withClone_merged (hsrc : GraphOk src) (hnormal : NamesNormal src) (h : WellFormed l) (hr : Points src r)
    {f : DomainLawyer → DomainRef → DomainLawyer}
    (hf : ∀ l', Merged src l l' → Points l' ⟨l.id, r.name⟩ → Kept l' (f l' ⟨l.id, r.name⟩)) :
    Merged src l (withClone src r f l) := by
  obtain ⟨d, hd, hderef⟩ := get_of_points hr
  have hname := hsrc.named r.name d hd
  have hd' : d.name ∈ src.domainMap.keys := by
    rw [hname]
    exact hr.2
  obtain ⟨l₁, hclone, hmerged, hpoints⟩ := cloneAndAdd_merged h hd' (hnormal d.name hd')
  rw [withClone, hderef]
  dsimp only
  rw [hclone, hname]
  rw [hname] at hpoints
  exact hmerged.trans (Merged.of_kept (hf l₁ hmerged hpoints) hmerged.grown.wellFormed)

theorem withCloneOf_merged (hsrc : GraphOk src) (hnormal : NamesNormal src) (h : WellFormed l)
    {pointer : Option DomainRef} {f : DomainLawyer → DomainRef → DomainLawyer}
    (hr : ∀ r, pointer = some r → Points src r)
    (hf : ∀ r l', pointer = some r → Merged src l l' → Points l' ⟨l.id, r.name⟩ → Kept l' (f l' ⟨l.id, r.name⟩)) :
    Merged src l (withCloneOf src pointer f l) := by
  cases pointer with
  | none => exact Merged.refl h
  | some r => exact withClone_merged hsrc hnormal h (hr r rfl) fun l' => hf r l' rfl

theorem merged_shards (hsrc : GraphOk src) (hnormal : NamesNormal src) {target : DomainRef} (h : WellFormed l)
    (shards : List DomainRef) (htarget : Points l target)
    (hshards : ∀ r ∈ shards, Points src r ∧ isWildcardName target.name = false ∧ target.name ≠ r.name) :
    Merged src l
      (shards.foldl (fun l r => withClone src r (fun l dst => (l.setShardFrom false dst target).2) l) l) := by
  induction shards generalizing l with
  | nil => exact Merged.refl h
  | cons r shards ih =>
    obtain ⟨hr, hwildcard, hne⟩ := hshards r List.mem_cons_self
    have hstep : Merged src l (withClone src r (fun l dst => (l.setShardFrom false dst target).2) l) := by
      apply withClone_merged hsrc hnormal h hr
      intro l' h' hdst
      exact keepsGraph_setShardFrom false l' _ _ h'.grown.wellFormed.graph hdst
        ⟨h'.grown.points htarget, hwildcard⟩ hne nofun
    exact hstep.trans (ih hstep.grown.wellFormed (hstep.grown.points htarget)
      fun r' hr' => hshards r' (List.mem_cons_of_mem _ hr'))

theorem merged_mergeDomain (hsrc : GraphOk src) (hnormal : NamesNormal src) (h : WellFormed l)
    (hd : src.domainMap.get n = some d) :
    Merged src l (mergeDomain src l d) ∧ n ∈ (mergeDomain src l d).domainMap.keys := by
  have hname := hsrc.named n d hd
  have hlinked := hsrc.linked n d hd
  have hn : d.name ∈ src.domainMap.keys := (SortedMap.mem_keys _ _).mpr (by rw [hname, hd]; rfl)
  obtain ⟨l₁, hclone, h₁, hpoints⟩ := cloneAndAdd_merged h hn (hnormal d.name hn)
  rw [mergeDomain, hclone]
  dsimp only
  rw [← h₁.grown.id] at hpoints ⊢
  have hrewrite : Merged src l₁ (withCloneOf src d.rewriteDomain
      (fun l dst => (l.setRewriteDomain ⟨l₁.id, d.name⟩ dst).2) l₁) := by
    apply withCloneOf_merged hsrc hnormal h₁.grown.wellFormed fun r hr => (hlinked.rewrite r hr).1.1
    intro r l' hr h' hdst
    obtain ⟨htarget, hne⟩ := hlinked.rewrite r hr
    exact keepsGraph_setRewriteDomain l' _ _ h'.grown.wellFormed.graph (h'.grown.points hpoints)
      ⟨hdst, htarget.2⟩ hne nofun
  generalize withCloneOf src d.rewriteDomain (fun l dst => (l.setRewriteDomain ⟨l₁.id, d.name⟩ dst).2) l₁ = l₂
    at hrewrite ⊢
  have hpoints₂ := hrewrite.grown.points hpoints
  have horigin : Merged src l₂ (withCloneOf src d.originDomain
      (fun l dst => (l.setOriginDomain ⟨l₁.id, d.name⟩ dst).2) l₂) := by
    apply withCloneOf_merged hsrc hnormal hrewrite.grown.wellFormed fun r hr => (hlinked.origin r hr).1
    intro r l' hr h' hdst
    exact kept_setOriginDomain h'.grown.wellFormed.graph (h'.grown.points hpoints₂) ⟨hdst, (hlinked.origin r hr).2⟩
  generalize withCloneOf src d.originDomain (fun l dst => (l.setOriginDomain ⟨l₁.id, d.name⟩ dst).2) l₂ = l₃
    at horigin ⊢
  have hpoints₃ := horigin.grown.points hpoints₂
  have hshards := merged_shards hsrc hnormal horigin.grown.wellFormed d.shards hpoints₃ (by
    intro r hr
    exact ⟨(hlinked.shards r hr).1, hlinked.sharded (List.ne_nil_of_mem hr), (hlinked.shards r hr).2.symm⟩)
  exact ⟨h₁.trans (hrewrite.trans (horigin.trans hshards)), by rw [← hname]; exact (hshards.grown.points hpoints₃).2⟩

theorem merged_foldl_mergeDomain (hsrc : GraphOk src) (hnormal : NamesNormal src) (h : WellFormed l)
    (entries : List (GoogleString × Domain)) (hentries : ∀ e ∈ entries, src.domainMap.get e.1 = some e.2) :
    Merged src l (entries.foldl (fun l e => mergeDomain src l e.2) l) ∧
      ∀ e ∈ entries, e.1 ∈ (entries.foldl (fun l e => mergeDomain src l e.2) l).domainMap.keys := by
  induction entries generalizing l with
  | nil => exact ⟨Merged.refl h, nofun⟩
  | cons e entries ih =>
    obtain ⟨hstep, hkey⟩ := merged_mergeDomain hsrc hnormal h (hentries e List.mem_cons_self)
    obtain ⟨hrest, hkeys⟩ := ih hstep.grown.wellFormed fun e' he' => hentries e' (List.mem_cons_of_mem _ he')
    refine ⟨hstep.trans hrest, ?_⟩
    intro e' he'
    obtain rfl | he' := List.mem_cons.mp he'
    · exact hrest.grown.keys _ hkey
    · exact hkeys e' he'

/-- The lawyer after the loop of `Merge`. -/
def mergeDomains (l src : DomainLawyer) : DomainLawyer := src.domainMap.entries.foldl (fun l e => mergeDomain src l e.2) l

theorem merged_mergeDomains (hsrc : GraphOk src) (hnormal : NamesNormal src) (h : WellFormed l) :
    Merged src l (mergeDomains l src) := by
  apply (merged_foldl_mergeDomain hsrc hnormal h src.domainMap.entries _).1
  intro e he
  exact Records.find_of_mem src.domainMap.nodup he

theorem keys_mergeDomains (hsrc : GraphOk src) (hnormal : NamesNormal src) (h : WellFormed l) :
    n ∈ (mergeDomains l src).domainMap.keys ↔ n ∈ l.domainMap.keys ∨ n ∈ src.domainMap.keys := by
  have hmerged := merged_mergeDomains hsrc hnormal h
  constructor
  · exact hmerged.within n
  · rintro (hn | hn)
    · exact hmerged.grown.keys n hn
    · obtain ⟨e, he, rfl⟩ := List.mem_map.mp hn
      exact (merged_foldl_mergeDomain hsrc hnormal h src.domainMap.entries
        fun e he => Records.find_of_mem src.domainMap.nodup he).2 e he

theorem mergedWildcard_eq_some {existing : List DomainRef} {r' : DomainRef} :
    l.mergedWildcard existing r' = some r ↔ r'.name ∈ l.domainMap.keys ∧ r = ⟨l.id, r'.name⟩ ∧ r ∉ existing := by
  rw [mergedWildcard, SortedMap.mem_keys]
  cases l.domainMap.get r'.name with
  | none => simp
  | some d =>
    dsimp only
    split_ifs with hr'
    · constructor
      · intro h
        cases h
      · rintro ⟨_, rfl, h⟩
        exact absurd hr' h
    · constructor
      · intro h
        obtain rfl := Option.some_inj.mp h
        exact ⟨rfl, rfl, hr'⟩
      · rintro ⟨_, rfl, _⟩
        rfl

theorem mem_mergedWildcards {existing : List DomainRef} : r ∈ mergedWildcards src l existing ↔
    ∃ r' ∈ src.wildcardedDomains, r'.name ∈ l.domainMap.keys ∧ r = ⟨l.id, r'.name⟩ ∧ r ∉ existing := by
  simp only [mergedWildcards, List.mem_filterMap, mergedWildcard_eq_some]

theorem nodup_mergedWildcards (h : WellFormed src) (existing : List DomainRef) :
    (mergedWildcards src l existing).Nodup := by
  apply List.pairwise_filterMap.mpr
  apply List.Pairwise.imp_of_mem _ h.nodup
  intro r r' hr hr' hne b hb b' hb' heq
  apply hne
  obtain ⟨_, rfl, _⟩ := mergedWildcard_eq_some.mp hb
  obtain ⟨_, rfl, _⟩ := mergedWildcard_eq_some.mp hb'
  have howner := ((h.wildcards r).mp hr).1.1
  have howner' := ((h.wildcards r').mp hr').1.1
  have hname : r.name = r'.name := (DomainRef.mk.injEq _ _ _ _ ▸ heq).2
  cases r
  cases r'
  congr
  exact howner.trans howner'.symm

theorem wellFormed_merge (hsrc : WellFormed src) (hnormal : NamesNormal src) (h : WellFormed l) :
    WellFormed (l.merge src) := by
  have hmerged := merged_mergeDomains hsrc.graph hnormal h
  have hkeys := fun n => keys_mergeDomains (n := n) hsrc.graph hnormal h
  have hgrown := hmerged.grown
  have hpoints : ∀ r, Points (l.merge src) r ↔ Points (mergeDomains l src) r := fun _ => Iff.rfl
  have hwild : (l.merge src).wildcardedDomains =
      l.wildcardedDomains ++ mergedWildcards src (mergeDomains l src) l.wildcardedDomains := rfl
  refine ⟨⟨hgrown.wellFormed.graph.named, ?_, hgrown.wellFormed.graph.cleared, hgrown.wellFormed.graph.running⟩,
    ?_, ?_⟩
  · intro n d hd
    exact (hgrown.wellFormed.graph.linked n d hd).mono fun r hr => (hpoints r).mpr hr
  · rw [hwild]
    apply List.nodup_append.mpr
    refine ⟨h.nodup, nodup_mergedWildcards hsrc _, ?_⟩
    rintro r hr r' hr' rfl
    obtain ⟨_, _, _, _, hnew⟩ := mem_mergedWildcards.mp hr'
    exact hnew hr
  · intro r
    rw [hwild, hpoints, List.mem_append, mem_mergedWildcards]
    constructor
    · rintro (hr | ⟨r', hr', hkey, rfl, _⟩)
      · obtain ⟨hr, hwildcard⟩ := (h.wildcards r).mp hr
        exact ⟨hgrown.points hr, hwildcard⟩
      · exact ⟨⟨rfl, hkey⟩, ((hsrc.wildcards r').mp hr').2⟩
    · rintro ⟨hr, hwildcard⟩
      by_cases hold : r ∈ l.wildcardedDomains
      · exact Or.inl hold
      · obtain hkey | hkey := (hkeys r.name).mp hr.2
        · exact Or.inl ((h.wildcards r).mpr ⟨⟨hr.1.trans hgrown.id, hkey⟩, hwildcard⟩)
        · refine Or.inr ⟨⟨src.id, r.name⟩, (hsrc.wildcards _).mpr ⟨⟨rfl, hkey⟩, hwildcard⟩, hr.2, ?_, hold⟩
          rw [← hr.1]

end PageSpeed.Rewriter.DomainLawyer
