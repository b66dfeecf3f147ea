import PageSpeed.Rewriter.DomainGraph

/-!
Every operation keeps a lawyer well formed: its pointers are its own, and its wildcards are listed
once.
-/

namespace PageSpeed.Rewriter.DomainLawyer

variable {l l' l'' : DomainLawyer} {r : DomainRef} {n : GoogleString} {d : Domain}

structure WellFormed (l : DomainLawyer) : Prop where
  graph : GraphOk l
  nodup : l.wildcardedDomains.Nodup
  wildcards : ∀ r, r ∈ l.wildcardedDomains ↔ Points l r ∧ isWildcardName r.name = true

structure Grown (l l' : DomainLawyer) : Prop where
  wellFormed : WellFormed l'
  id : l'.id = l.id
  keys : ∀ n ∈ l.domainMap.keys, n ∈ l'.domainMap.keys

theorem Grown.refl (h : WellFormed l) : Grown l l := ⟨h, rfl, fun _ hn => hn⟩

theorem Grown.trans (h : Grown l l') (h' : Grown l' l'') : Grown l l'' :=
  ⟨h'.wellFormed, h'.id.trans h.id, fun n hn => h'.keys n (h.keys n hn)⟩

theorem Grown.points (h : Grown l l') (hr : Points l r) : Points l' r := ⟨hr.1.trans h.id.symm, h.keys _ hr.2⟩

theorem Grown.target (h : Grown l l') (hr : Target l r) : Target l' r := ⟨h.points hr.1, hr.2⟩

theorem Kept.wellFormed (h : Kept l l') (hl : WellFormed l) : WellFormed l' := by
  refine ⟨h.graph, ?_, ?_⟩
  · rw [h.same.wildcards]
    exact hl.nodup
  · intro r
    rw [h.same.wildcards, h.same.points]
    exact hl.wildcards r

theorem Kept.grown (h : Kept l l') (hl : WellFormed l) : Grown l l' := by
  refine ⟨h.wellFormed hl, h.same.id, ?_⟩
  intro n hn
  rw [h.same.keys]
  exact hn

theorem WellFormed.grown_set (h : WellFormed l) (suffix : GoogleString) (rewrites all : Bool) :
    Grown l { l with proxySuffix := suffix, canRewriteDomains := rewrites, authorizeAllDomains := all } := by
  refine Kept.grown ⟨⟨h.graph.named, ?_, h.graph.cleared, h.graph.running⟩, rfl, rfl, rfl⟩ h
  intro n d hd
  exact (h.graph.linked n d hd).same ⟨rfl, rfl, rfl⟩

theorem wellFormed_new (id : ℕ) : WellFormed (new id) := by
  refine ⟨⟨nofun, nofun, nofun, rfl⟩, List.nodup_nil, ?_⟩
  intro r
  constructor
  · intro hr
    cases hr
  · rintro ⟨⟨_, hr⟩, _⟩
    cases hr

theorem grown_modify (h : WellFormed l) (hr : Points l r) {f : Domain → Domain}
    (hf : ∀ d, (f d).name = d.name ∧ (f d).cycleBreadcrumb = d.cycleBreadcrumb ∧
      (f d).rewriteDomain = d.rewriteDomain ∧ (f d).originDomain = d.originDomain ∧ (f d).shards = d.shards) :
    Grown l (l.modify r f) := by
  apply Kept.grown (kept_modify h.graph hr _) h
  intro d hd
  obtain ⟨hname, hcrumb, hrewrite, horigin, hshards⟩ := hf d
  have hlinked := h.graph.linked r.name d hd
  refine ⟨hname, hcrumb, ?_, ?_, ?_, ?_⟩
  · rw [hrewrite, hname]
    exact hlinked.rewrite
  · rw [horigin]
    exact hlinked.origin
  · rw [hshards, hname]
    exact hlinked.shards
  · rw [hshards, hname]
    exact hlinked.sharded

theorem grown_authorize (h : WellFormed l) (hr : Points l r) : Grown l (l.authorize r) :=
  grown_modify h hr fun _ => ⟨rfl, rfl, rfl, rfl, rfl⟩

def addNew (l : DomainLawyer) (name : GoogleString) : DomainLawyer :=
  { l with
    domainMap := l.domainMap.insert nameBefore name { name := name }
    wildcardedDomains := l.wildcardedDomains ++ if isWildcardName name then [⟨l.id, name⟩] else [] }

variable {name : GoogleString}

theorem keys_addNew (hname : l.domainMap.get name = none) :
    n ∈ (l.addNew name).domainMap.keys ↔ n = name ∨ n ∈ l.domainMap.keys := by
  rw [addNew]
  dsimp only
  rw [(SortedMap.perm_keys_insert _ _ _ _ hname).mem_iff, List.mem_cons]

theorem points_addNew (hname : l.domainMap.get name = none) :
    Points (l.addNew name) r ↔ r = ⟨l.id, name⟩ ∨ Points l r := by
  unfold Points
  rw [keys_addNew hname, addNew]
  dsimp only
  constructor
  · rintro ⟨howner, rfl | hr⟩
    · exact Or.inl (by rw [← howner])
    · exact Or.inr ⟨howner, hr⟩
  · rintro (rfl | ⟨howner, hr⟩)
    · exact ⟨rfl, Or.inl rfl⟩
    · exact ⟨howner, Or.inr hr⟩

theorem wellFormed_addNew (h : WellFormed l) (hname : l.domainMap.get name = none) : WellFormed (l.addNew name) := by
  have hmono : ∀ r, Points l r → Points (l.addNew name) r := fun r hr => (points_addNew hname).mpr (Or.inr hr)
  have hget : ∀ n d, (l.addNew name).domainMap.get n = some d →
      (n = name ∧ d = { name := name }) ∨ l.domainMap.get n = some d := by
    intro n d hd
    rw [addNew, SortedMap.get_insert, hname, Option.getD_none] at hd
    split_ifs at hd with hn
    · exact Or.inl ⟨hn, (Option.some_inj.mp hd).symm⟩
    · exact Or.inr hd
  have hfresh : (⟨l.id, name⟩ : DomainRef) ∉ l.wildcardedDomains := by
    intro hr
    have hkey := ((h.wildcards _).mp hr).1.2
    rw [SortedMap.mem_keys, hname] at hkey
    cases hkey
  refine ⟨⟨?_, ?_, ?_, h.graph.running⟩, ?_, ?_⟩
  · intro n d hd
    obtain ⟨rfl, rfl⟩ | hd := hget n d hd
    · rfl
    · exact h.graph.named n d hd
  · intro n d hd
    obtain ⟨rfl, rfl⟩ | hd := hget n d hd
    · exact ⟨by rintro _ ⟨⟩, by rintro _ ⟨⟩, by rintro _ ⟨⟩, fun hshards => absurd rfl hshards⟩
    · exact (h.graph.linked n d hd).mono hmono
  · intro n d hd
    obtain ⟨rfl, rfl⟩ | hd := hget n d hd
    · rfl
    · exact h.graph.cleared n d hd
  · rw [addNew]
    dsimp only
    split_ifs
    · exact List.nodup_append.mpr ⟨h.nodup, List.nodup_singleton _, by
        rintro r hr r' hr' rfl
        rw [List.mem_singleton.mp hr'] at hr
        exact hfresh hr⟩
    · rw [List.append_nil]
      exact h.nodup
  · intro r
    rw [points_addNew hname, addNew]
    dsimp only
    rw [List.mem_append, h.wildcards]
    split_ifs with hwildcard
    · rw [List.mem_singleton]
      constructor
      · rintro (⟨hr, hw⟩ | rfl)
        · exact ⟨Or.inr hr, hw⟩
        · exact ⟨Or.inl rfl, hwildcard⟩
      · rintro ⟨rfl | hr, hw⟩
        · exact Or.inr rfl
        · exact Or.inl ⟨hr, hw⟩
    · constructor
      · rintro (⟨hr, hw⟩ | hr)
        · exact ⟨Or.inr hr, hw⟩
        · cases hr
      · rintro ⟨rfl | hr, hw⟩
        · exact absurd hw hwildcard
        · exact Or.inl ⟨hr, hw⟩

theorem grown_addNew (h : WellFormed l) (hname : l.domainMap.get name = none) : Grown l (l.addNew name) :=
  ⟨wellFormed_addNew h hname, rfl, fun _ hn => (keys_addNew hname).mpr (Or.inr hn)⟩

/-- The lawyer has no names but its own and those of `names`. -/
def Within (names : GoogleString → Prop) (l l' : DomainLawyer) : Prop :=
  ∀ n ∈ l'.domainMap.keys, n ∈ l.domainMap.keys ∨ names n

theorem Within.trans {names : GoogleString → Prop} (h : Within names l l') (h' : Within names l' l'') :
    Within names l l'' := by
  intro n hn
  obtain hn | hn := h' n hn
  · exact h n hn
  · exact Or.inr hn

theorem SameDomains.within (h : SameDomains l l') (names : GoogleString → Prop) : Within names l l' := by
  intro n hn
  rw [h.keys] at hn
  exact Or.inl hn

theorem within_addNew (hname : l.domainMap.get name = none) : Within (· = name) l (l.addNew name) := by
  intro n hn
  exact ((keys_addNew hname).mp hn).symm

structure Added (name : GoogleString) (l : DomainLawyer) (result : Option DomainRef × DomainLawyer) : Prop where
  grown : Grown l result.2
  within : Within (· = normalizeDomainName name) l result.2
  ref : ∀ r, result.1 = some r → r = ⟨l.id, normalizeDomainName name⟩ ∧ Points result.2 r

/-- `*` authorizes everything. -/
def noteStar (l : DomainLawyer) (name : GoogleString) (authorize : Bool) : DomainLawyer :=
  { l with authorizeAllDomains := l.authorizeAllDomains || (authorize && name = ascii "*") }

theorem addDomainHelper_of_new (hname : l.domainMap.get (normalizeDomainName name) = none)
    (hne : name.isEmpty = false) (warnOnDuplicate authorize isProxy : Bool) :
    l.addDomainHelper name warnOnDuplicate authorize isProxy =
      (some ⟨l.id, normalizeDomainName name⟩, ((l.noteStar name authorize).addNew (normalizeDomainName name)).modify
        ⟨l.id, normalizeDomainName name⟩ (mark authorize isProxy)) := by
  unfold addDomainHelper noteStar addNew
  rw [hne]
  dsimp only
  rw [hname]
  rfl

theorem addDomainHelper_of_old (hname : l.domainMap.get (normalizeDomainName name) = some d)
    (hne : name.isEmpty = false) (warnOnDuplicate authorize isProxy : Bool) :
    l.addDomainHelper name warnOnDuplicate authorize isProxy =
      if warnOnDuplicate ∧ authorize = d.authorized then (none, l.noteStar name authorize)
      else (some ⟨l.id, normalizeDomainName name⟩, (l.noteStar name authorize).modify
        ⟨l.id, normalizeDomainName name⟩ (mark authorize isProxy)) := by
  unfold addDomainHelper noteStar
  rw [hne]
  dsimp only
  rw [hname]
  rfl

theorem added_addDomainHelper (h : WellFormed l) (name : GoogleString) (warnOnDuplicate authorize isProxy : Bool) :
    Added name l (l.addDomainHelper name warnOnDuplicate authorize isProxy) := by
  have hstar : Grown l (l.noteStar name authorize) := h.grown_set _ _ _
  have hsame : SameDomains l (l.noteStar name authorize) := ⟨rfl, rfl, rfl⟩
  have hmark : ∀ l', Grown l l' → Points l' ⟨l.id, normalizeDomainName name⟩ →
      Within (· = normalizeDomainName name) l l' →
      Added name l (some ⟨l.id, normalizeDomainName name⟩,
        l'.modify ⟨l.id, normalizeDomainName name⟩ (mark authorize isProxy)) := by
    intro l' hl' hpoints hwithin
    have hmark := grown_modify (f := mark authorize isProxy) hl'.wellFormed hpoints fun _ => ⟨rfl, rfl, rfl, rfl, rfl⟩
    refine ⟨hl'.trans hmark, hwithin.trans ((sameDomains_modify _ _ _).within _), ?_⟩
    intro r hr
    obtain rfl := Option.some_inj.mp hr
    exact ⟨rfl, hmark.points hpoints⟩
  by_cases hempty : name.isEmpty = true
  · rw [addDomainHelper, if_pos hempty]
    exact ⟨Grown.refl h, (SameDomains.refl l).within _, nofun⟩
  rw [Bool.not_eq_true] at hempty
  cases hname : l.domainMap.get (normalizeDomainName name) with
  | none =>
    rw [addDomainHelper_of_new hname hempty]
    apply hmark
    · exact hstar.trans (grown_addNew hstar.wellFormed hname)
    · exact (points_addNew hname).mpr (Or.inl rfl)
    · exact (hsame.within _).trans (within_addNew hname)
  | some d =>
    rw [addDomainHelper_of_old hname hempty]
    split_ifs
    · exact ⟨hstar, hsame.within _, nofun⟩
    · apply hmark _ hstar _ (hsame.within _)
      exact ⟨rfl, (SortedMap.mem_keys _ _).mpr (by rw [noteStar, hname]; rfl)⟩

section

variable {u : UrlLib} {setDomainFn : SetDomainFn} {allowWildcards : Bool}

theorem grown_mapFrom (hset : KeepsGraph setDomainFn allowWildcards) {m : Mapping} (h : WellFormed m.lawyer)
    (hr : Target m.lawyer r) (domainName : GoogleString) :
    Grown m.lawyer (mapFrom u setDomainFn allowWildcards r m domainName).lawyer := by
  have hadded := added_addDomainHelper h domainName false false false
  unfold mapFrom
  generalize m.lawyer.addDomainHelper domainName false false false = result at hadded ⊢
  obtain ⟨ref, l₁⟩ := result
  have hgrown := hadded.grown
  cases ref with
  | none => exact hgrown
  | some fromDomain =>
    have hfrom := (hadded.ref fromDomain rfl).2
    dsimp only
    split_ifs with horigin hwildcard
    · exact hgrown.trans (grown_authorize hgrown.wellFormed hfrom)
    · exact hgrown
    · have hstar := hgrown.trans (hgrown.wellFormed.grown_set l₁.proxySuffix l₁.canRewriteDomains
        (l₁.authorizeAllDomains || domainName = ascii "*"))
      have hfrom₂ : Points { l₁ with authorizeAllDomains := l₁.authorizeAllDomains || domainName = ascii "*" }
        fromDomain := hfrom
      dsimp only at hstar
      generalize ({ l₁ with authorizeAllDomains := l₁.authorizeAllDomains || domainName = ascii "*" }) = l₂
        at hstar hfrom₂ ⊢
      have hauth := grown_authorize hstar.wellFormed hfrom₂
      have hall := hstar.trans hauth
      have hne : r.name ≠ fromDomain.name := by
        intro heq
        apply horigin
        rw [sameOrigin, heq]
        exact decide_eq_true rfl
      apply hall.trans
      apply Kept.grown _ hall.wellFormed
      apply hset _ fromDomain r hall.wellFormed.graph (hauth.points hfrom₂) (hall.target hr) hne
      rintro rfl
      simpa using hwildcard

theorem grown_foldl_mapFrom (hset : KeepsGraph setDomainFn allowWildcards) (domains : List GoogleString) {m : Mapping}
    (h : WellFormed m.lawyer) (hr : Target m.lawyer r) :
    Grown m.lawyer (domains.foldl (mapFrom u setDomainFn allowWildcards r) m).lawyer := by
  induction domains generalizing m with
  | nil => exact Grown.refl h
  | cons name domains ih =>
    have hstep := grown_mapFrom (u := u) hset h hr name
    exact hstep.trans (ih hstep.wellFormed (hstep.target hr))

theorem grown_mapDomainHelper (hset : KeepsGraph setDomainFn allowWildcards) (h : WellFormed l)
    (toDomainName fromDomains hostHeader : GoogleString) (allowMapToHttps authorizeToDomain : Bool) :
    Grown l (l.mapDomainHelper u toDomainName fromDomains hostHeader setDomainFn allowWildcards
      allowMapToHttps authorizeToDomain).2 := by
  by_cases hsafe : (!isSchemeSafeToMapTo toDomainName allowMapToHttps) = true
  · rw [mapDomainHelper, if_pos hsafe]
    exact Grown.refl h
  rw [mapDomainHelper, if_neg hsafe]
  have hadded := added_addDomainHelper h toDomainName false false false
  generalize l.addDomainHelper toDomainName false false false = result at hadded ⊢
  obtain ⟨ref, l₁⟩ := result
  have hgrown := hadded.grown
  cases ref with
  | none => exact hgrown
  | some toDomain =>
    have hto := (hadded.ref toDomain rfl).2
    dsimp only
    by_cases hwildcard : isWildcardName toDomain.name = true
    · rw [if_pos hwildcard]
      exact hgrown
    rw [if_neg hwildcard]
    have hauth : Grown l₁ (if authorizeToDomain then l₁.authorize toDomain else l₁) := by
      split_ifs
      · exact grown_authorize hgrown.wellFormed hto
      · exact Grown.refl hgrown.wellFormed
    dsimp only
    generalize (if authorizeToDomain then l₁.authorize toDomain else l₁) = l₂ at hauth ⊢
    have htarget : Target l₂ toDomain := ⟨hauth.points hto, Bool.not_eq_true _ ▸ hwildcard⟩
    have hloop := grown_foldl_mapFrom (u := u) (m := ⟨l₂, true, false⟩) hset
      (splitStringPieceToVector fromDomains [44] true) hauth.wellFormed htarget
    have hall := (hgrown.trans hauth).trans hloop
    split_ifs
    · exact hall.trans (grown_modify hall.wellFormed (hloop.points htarget.1) fun _ => ⟨rfl, rfl, rfl, rfl, rfl⟩)
    · exact hall

theorem grown_twoProtocolDomainHelper (hset : KeepsGraph setDomainFn false) (h : WellFormed l)
    (toDomainName fromDomainName hostHeader : GoogleString) (authorize : Bool) :
    Grown l (l.twoProtocolDomainHelper u toDomainName fromDomainName hostHeader setDomainFn authorize).2 := by
  unfold twoProtocolDomainHelper
  split
  · next httpToUrl httpsToUrl httpFromUrl httpsFromUrl _ _ =>
    have hhttp := grown_mapDomainHelper (u := u) hset h httpToUrl httpFromUrl hostHeader false authorize
    split
    · next heq =>
      rw [heq] at hhttp
      exact hhttp
    · next heq =>
      rw [heq] at hhttp
      exact hhttp.trans (grown_mapDomainHelper hset hhttp.wellFormed _ _ _ _ _)
  · exact Grown.refl h

theorem grown_rewritable {result : Bool × DomainLawyer} (h : Grown l result.2) : Grown l (rewritable result).2 :=
  h.trans (h.wellFormed.grown_set _ _ _)

end

end PageSpeed.Rewriter.DomainLawyer
