import PageSpeed.Rewriter.DomainMerge

/-!
The lawyers that a configuration can build, by calls and merges. `GoogleUrl`s of plain URLs show
what happens to some of them.
-/

namespace PageSpeed.Rewriter.DomainLawyer

inductive Call
  | addDomain (domainName : GoogleString)
  | addKnownDomain (domainName : GoogleString)
  | addRewriteDomainMapping (toDomainName fromDomains : GoogleString)
  | addTwoProtocolRewriteDomainMapping (toDomainName fromDomainName : GoogleString)
  | addOriginDomainMapping (toDomainName fromDomains hostHeader : GoogleString)
  | addTwoProtocolOriginDomainMapping (toDomainName fromDomainName hostHeader : GoogleString)
  | addProxyDomainMapping (proxyDomainName originDomainName toDomainName : GoogleString)
  | addShard (shardDomainName shards : GoogleString)
  | setAuthorizeAllDomains (v : Bool)
  | setProxySuffix (suffix : GoogleString)
  | clear

def call (urls : UrlLib) : Call → DomainLawyer → Bool × DomainLawyer
  | .addDomain name, l => l.addDomain name
  | .addKnownDomain name, l => l.addKnownDomain name
  | .addRewriteDomainMapping toName fromNames, l => l.addRewriteDomainMapping urls toName fromNames
  | .addTwoProtocolRewriteDomainMapping toName fromName, l => l.addTwoProtocolRewriteDomainMapping urls toName fromName
  | .addOriginDomainMapping toName fromNames hostHeader, l => l.addOriginDomainMapping urls toName fromNames hostHeader
  | .addTwoProtocolOriginDomainMapping toName fromName hostHeader, l =>
    l.addTwoProtocolOriginDomainMapping urls toName fromName hostHeader
  | .addProxyDomainMapping proxy origin toName, l => l.addProxyDomainMapping urls proxy origin toName
  | .addShard toName shards, l => l.addShard urls toName shards
  | .setAuthorizeAllDomains v, l => (true, l.setAuthorizeAllDomains v)
  | .setProxySuffix suffix, l => (true, l.setProxySuffix suffix)
  | .clear, l => (true, l.clear)

inductive Reachable (urls : UrlLib) (mergeable : DomainLawyer → DomainLawyer → Prop) : DomainLawyer → Prop
  | new (id : ℕ) : Reachable urls mergeable (new id)
  | call {l : DomainLawyer} (c : Call) (h : Reachable urls mergeable l) :
      Reachable urls mergeable (DomainLawyer.call urls c l).2
  | merge {l src : DomainLawyer} (h : Reachable urls mergeable l) (hsrc : Reachable urls mergeable src)
    (hmerge : mergeable l src) : Reachable urls mergeable (l.merge src)

variable {u : UrlLib} {l : DomainLawyer} {r : DomainRef} {d : Domain}

theorem grown_proxyMapping (h : WellFormed l) (proxy origin toName : GoogleString) :
    Grown l (l.addProxyDomainMapping u proxy origin toName).2 := by
  unfold addProxyDomainMapping
  split_ifs
  · exact grown_mapDomainHelper keepsGraph_setProxyDomain h _ _ _ _ _
  · have hproxied := grown_mapDomainHelper (u := u) keepsGraph_setProxyDomain h origin toName [] true true
    have hrewritten := grown_mapDomainHelper (u := u) keepsGraph_setRewriteDomain.of_all hproxied.wellFormed
      toName proxy [] true true
    exact (hproxied.trans hrewritten).trans
      (grown_mapDomainHelper keepsGraph_setOriginDomain.of_all hrewritten.wellFormed _ _ _ _ _)

theorem wellFormed_clear (h : WellFormed l) : WellFormed l.clear := by
  have hnew := wellFormed_new l.id
  have heq : l.clear = new l.id := by rw [clear, h.graph.running]; rfl
  rw [heq]
  exact hnew

theorem wellFormed_call (c : Call) (h : WellFormed l) : WellFormed (call u c l).2 := by
  cases c with
  | addDomain name => exact (added_addDomainHelper h name true true false).grown.wellFormed
  | addKnownDomain name => exact (added_addDomainHelper h name false false false).grown.wellFormed
  | addRewriteDomainMapping toName fromNames =>
    exact (grown_rewritable (grown_mapDomainHelper keepsGraph_setRewriteDomain h _ _ _ _ _)).wellFormed
  | addTwoProtocolRewriteDomainMapping toName fromName =>
    exact (grown_rewritable (grown_twoProtocolDomainHelper keepsGraph_setRewriteDomain.of_all h _ _ _ _)).wellFormed
  | addOriginDomainMapping toName fromNames hostHeader =>
    exact (grown_mapDomainHelper keepsGraph_setOriginDomain h _ _ _ _ _).wellFormed
  | addTwoProtocolOriginDomainMapping toName fromName hostHeader =>
    exact (grown_twoProtocolDomainHelper keepsGraph_setOriginDomain.of_all h _ _ _ _).wellFormed
  | addProxyDomainMapping proxy origin toName => exact (grown_proxyMapping h proxy origin toName).wellFormed
  | addShard toName shards =>
    exact (grown_rewritable (grown_mapDomainHelper (keepsGraph_setShardFrom true).of_all h _ _ _ _ _)).wellFormed
  | setAuthorizeAllDomains v => exact (h.grown_set _ _ _).wellFormed
  | setProxySuffix suffix => exact (h.grown_set _ _ _).wellFormed
  | clear => exact wellFormed_clear h

def Mergeable (l src : DomainLawyer) : Prop := src.id ≠ l.id ∧ NamesNormal src

theorem Reachable.wellFormed (h : Reachable u Mergeable l) : WellFormed l := by
  induction h with
  | new id => exact wellFormed_new id
  | call c _ ih => exact wellFormed_call c ih
  | merge _ _ hmerge ih ihsrc => exact wellFormed_merge ihsrc hmerge.2 ih

/-! The lookups. -/

theorem points_findPath (components : List GoogleString) (path : GoogleString)
    (h : (l.findPath components path).1 = some r) : Points l r := by
  induction components generalizing path with
  | nil => cases h
  | cons component components ih =>
    rw [findPath] at h
    split_ifs at h with hpath
    · obtain rfl := Option.some_inj.mp h
      exact ⟨rfl, (SortedMap.mem_keys _ _).mpr hpath⟩
    · exact ih _ h

theorem points_findDomain (hl : ∀ r ∈ l.wildcardedDomains, Points l r) {gurl : GoogleUrl}
    (h : l.findDomain gurl = some r) : Points l r := by
  rw [findDomain] at h
  dsimp only at h
  obtain h | ⟨_, h⟩ := Option.or_eq_some_iff.mp h
  · unfold findAlongPath at h
    dsimp only at h
    split_ifs at h
    exact points_findPath _ _ h
  · exact hl r (List.mem_of_find?_eq_some h)

theorem mapUrlHelper_isSome (hl : GraphOk l) (hr : Target l r) (hd : l.deref r = some d) (fromDomain : Domain)
    (gurl : GoogleUrl) : (mapUrlHelper u fromDomain d gurl).isSome = true := by
  obtain ⟨_, hget⟩ := points_of_deref hd
  have hname := hl.named r.name d hget
  rw [mapUrlHelper, Domain.isWildcarded, hname, hr.2]
  rfl

theorem mapToRewriteDomain_isSome (hl : GraphOk l) (hr : Points l r) (hd : l.deref r = some d)
    (request : MappedRequest) : (mapToRewriteDomain u l r d request).isSome = true := by
  obtain ⟨_, hget⟩ := points_of_deref hd
  unfold mapToRewriteDomain
  cases hrewrite : d.rewriteDomain with
  | none => rfl
  | some mapped =>
    obtain ⟨htarget, hne⟩ := (hl.linked r.name d hget).rewrite mapped hrewrite
    obtain ⟨mappedDomain, hmapped, hderef⟩ := get_of_points htarget.1
    obtain ⟨result, hresult⟩ := Option.isSome_iff_exists.mp (mapUrlHelper_isSome (u := u) hl htarget hderef d
      request.resolvedRequest)
    have hwildcard : mappedDomain.isWildcarded = false := by
      rw [Domain.isWildcarded, hl.named mapped.name mappedDomain hmapped]
      exact htarget.2
    have hother : mapped ≠ r := by
      rintro rfl
      exact hne (hl.named mapped.name d hget).symm
    simp [hderef, hwildcard, hother, hresult]

theorem mapRequestToDomain_isSome (hl : WellFormed l) {request : GoogleUrl} (hrequest : request.isAnyValid = true)
    (resourceUrl : GoogleString) : (mapRequestToDomain u l request resourceUrl).isSome = true := by
  rw [mapRequestToDomain, hrequest, Bool.not_true, if_neg Bool.false_ne_true]
  dsimp only
  by_cases hvalid : (!(u.resolve request resourceUrl).isWebValid) = true
  · rw [if_pos hvalid]
    rfl
  rw [if_neg hvalid]
  cases hr : l.findDomain (u.resolve request resourceUrl) with
  | none => dsimp only; split_ifs <;> rfl
  | some r =>
    have hpoints := points_findDomain (fun r hr => ((hl.wildcards r).mp hr).1) hr
    obtain ⟨d, _, hderef⟩ := get_of_points hpoints
    dsimp only
    rw [hderef]
    dsimp only [bind, Option.bind]
    split_ifs
    · exact mapToRewriteDomain_isSome hl.graph hpoints hderef _
    · exact mapToRewriteDomain_isSome hl.graph hpoints hderef _
    · exact mapToRewriteDomain_isSome hl.graph hpoints hderef _
    · rfl

theorem mapOriginUrl_isSome (hl : WellFormed l) (gurl : GoogleUrl) : (mapOriginUrl u l gurl).isSome = true := by
  unfold mapOriginUrl
  split_ifs
  · rfl
  · split
    · rfl
    · next domain hdomain =>
      split
      · rfl
      · next r hr =>
        obtain ⟨r', _, hderef⟩ := Option.bind_eq_some_iff.mp hdomain
        obtain ⟨_, hget⟩ := points_of_deref hderef
        have htarget := (hl.graph.linked r'.name domain hget).origin r hr
        obtain ⟨originDomain, _, horigin⟩ := get_of_points htarget.1
        obtain ⟨result, hresult⟩ := Option.isSome_iff_exists.mp
          (mapUrlHelper_isSome (u := u) hl.graph htarget horigin domain gurl)
        simp [horigin, hresult]

/-- In every run of calls and merges of lawyers with normal names, pointers lead to domains of the
lawyer, the wildcards are listed once, origins are merged to the end, and no `CHECK` of a lookup
fails. -/
theorem reachable_sound (h : Reachable u Mergeable l) :
    WellFormed l ∧
      (∀ r origin, Points l r → (mergeOriginFuel (l.domainMap.keys.length + 1) l r origin).isSome = true ∧
        ∀ n d, (l.mergeOrigin r origin).domainMap.get n = some d → d.cycleBreadcrumb = false) ∧
      (∀ request resourceUrl, request.isAnyValid = true →
        (mapRequestToDomain u l request resourceUrl).isSome = true) ∧
      ∀ gurl, (mapOriginUrl u l gurl).isSome = true := by
  have hl := h.wellFormed
  refine ⟨hl, ?_, fun _ resourceUrl hrequest => mapRequestToDomain_isSome hl hrequest resourceUrl,
    mapOriginUrl_isSome hl⟩
  intro r origin hr
  have hfuel := Nat.lt_succ_of_le (List.countP_le_length (p := l.uncrumbed) (l := l.domainMap.keys))
  obtain ⟨l', hresult, _⟩ := mergeOriginFuel_walks _ l r origin hl.graph.walkable hr hfuel
  have hset := originsSet_mergeOrigin hl.graph hr origin
  constructor
  · rw [hresult]
    rfl
  · intro n d hd
    obtain ⟨_, hn⟩ | ⟨d₀, o, hd₀, hd', _⟩ := hset.get n
    · rw [hn] at hd
      cases hd
    · rw [hd'] at hd
      obtain rfl := Option.some_inj.mp hd
      exact hl.graph.cleared n d₀ hd₀

/-! A `GoogleUrl` of a scheme, a host and a path. -/

def plainUrl (url : GoogleString) : GoogleUrl :=
  let start := (findPiece (ascii "://") url).getD 0
  let scheme := url.take start
  let rest := url.drop (start + 3)
  let host := rest.take ((findPiece [47] rest).getD rest.length)
  let path := ensureStartsInSlash (rest.drop host.length)
  let sansLeaf := (path.reverse.dropWhile (· ≠ 47)).reverse
  let valid := (scheme = ascii "http" || scheme = ascii "https") && !host.isEmpty
  { isAnyValid := valid
    isWebValid := valid
    spec := scheme ++ ascii "://" ++ host ++ path
    origin := scheme ++ ascii "://" ++ host
    allExceptLeaf := scheme ++ ascii "://" ++ host ++ sansLeaf
    pathSansLeaf := sansLeaf
    pathAndLeaf := path
    hostAndPort := host }
where
  ensureStartsInSlash (path : GoogleString) : GoogleString := if path.head? = some 47 then path else 47 :: path

def plainUrls : UrlLib where
  parse := plainUrl
  resolve base url :=
    if (findPiece (ascii "://") url).isSome then plainUrl url
    else if (ascii "./").isPrefixOf url then plainUrl (base.allExceptLeaf ++ url.drop 2)
    else if (ascii "/").isPrefixOf url then plainUrl (base.origin ++ url)
    else plainUrl (base.allExceptLeaf ++ url)

/-- A lawyer that maps a wildcard to a CDN, with another one merged into it. -/
theorem reachable_sound_merged : WellFormed
    ((call plainUrls (.addRewriteDomainMapping (ascii "http://cdn.com") (ascii "*.a.com")) (new 0)).2.merge
      (call plainUrls (.addDomain (ascii "*.b.com")) (new 1)).2) :=
  (reachable_sound (.merge (.call _ (.new 0)) (.call _ (.new 1)) ⟨by decide, by unfold NamesNormal; decide⟩)).1

/-- A wildcard with two ports loses one when its lawyer is merged, and is then not listed. -/
theorem merged_wildcard_unlisted : ∃ l, Reachable plainUrls (fun l src => src.id ≠ l.id) l ∧
    ∃ r, Points l r ∧ isWildcardName r.name = true ∧ r ∉ l.wildcardedDomains := by
  refine ⟨(new 0).merge (call plainUrls (.addDomain (ascii "*:80:80")) (new 1)).2,
    .merge (.new 0) (.call _ (.new 1)) (by decide), ⟨0, ascii "http://*/"⟩, ?_⟩
  unfold Points
  decide

end PageSpeed.Rewriter.DomainLawyer
